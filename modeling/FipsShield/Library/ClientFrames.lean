import FipsShield.Library.Frame
import Mathlib.Data.List.Induction

/-! What RFC 6455 asks of the frames a client sends, put on the headers of a byte stream:
each by itself, and each where a data message is open or not. -/
namespace FipsShield.Frame
open Buffer

structure Header where
  fin : Bool
  reserved : UInt8
  opcode : Nat
  masked : Bool
  length : Nat
  deriving DecidableEq

def header (f : Frame) : Header where
  fin := f.fin
  reserved := f.reserved
  opcode := f.opcode
  masked := f.key.isSome
  length := f.payload.length

/-- The header a stream starts with, once its length field is complete. -/
def readHeader (b : Bytes) : Option Header :=
  (extent b).map fun place =>
    { fin := byteAt b 0 &&& 0x80 != 0
      reserved := byteAt b 0 &&& 0x70
      opcode := (byteAt b 0 &&& 0x0F).toNat
      masked := masked b
      length := place.2 }

/-- The headers of a stream: of its frames, and of one whose payload is not complete. -/
def headers (b : Bytes) : List Header := (split b).1.map header ++ (readHeader (split b).2).toList

/-- The size of a frame whose length stands in the shortest of the three encodings. -/
def leastSize (f : Frame) : Nat :=
  (if f.payload.length < 126 then 2 else if f.payload.length < 2 ^ 16 then 4 else 10) +
    (if f.key.isSome then 4 else 0) + f.payload.length

namespace Header

/-- The header of a client's frame where a data message is open or not. Every opcode from
eight on counts as a control frame. -/
structure Allowed (isOpen : Bool) (h : Header) : Prop where
  reserved : h.reserved = 0
  masked : h.masked = true
  length : h.length < 2 ^ 63
  control : 8 ≤ h.opcode → h.fin = true ∧ h.length ≤ 125
  data : h.opcode < 8 → if isOpen then h.opcode = 0 else h.opcode = 1 ∨ h.opcode = 2

/-- Whether a data message is open after the frame. -/
def opens (isOpen : Bool) (h : Header) : Bool := if 8 ≤ h.opcode then isOpen else !h.fin

def Conforms : Bool → List Header → Prop
  | _,[] => True
  | isOpen,h::rest => h.Allowed isOpen ∧ Conforms (h.opens isOpen) rest

theorem conforms_append (isOpen : Bool) (first second : List Header) :
    Conforms isOpen (first ++ second) ↔ Conforms isOpen first ∧ Conforms (first.foldl opens isOpen) second := by
  induction first generalizing isOpen with
  | nil => simp [Conforms]
  | cons h rest ih =>
    simp only [List.cons_append,Conforms,List.foldl_cons,ih,and_assoc]

theorem conforms_concat (isOpen : Bool) (first : List Header) (h : Header) :
    Conforms isOpen (first ++ [h]) ↔ Conforms isOpen first ∧ h.Allowed (first.foldl opens isOpen) := by
  rw [conforms_append]
  simp [Conforms]

theorem Conforms.start {isOpen : Bool} {first whole : List Header} (conforms : Conforms isOpen whole)
    (started : first <+: whole) : Conforms isOpen first := by
  obtain ⟨rest,rfl⟩ := started
  exact ((conforms_append isOpen first rest).mp conforms).1

end Header

theorem opens_assemble (fs : List Frame) : (fs.map header).foldl Header.opens false = (assemble fs).isOpen := by
  induction fs using List.reverseRecOn with
  | nil => rfl
  | append_singleton fs f ih =>
    rw [List.map_append,List.map_singleton,List.foldl_append,ih,assemble_concat]
    have kind : f.control = decide (8 ≤ f.opcode) := rfl
    by_cases control : 8 ≤ f.opcode
    · rw [((assemble fs).add_control (kind.trans (by simpa using control))).2.2]
      simp [Header.opens,header,control]
    · have data : f.control = false := kind.trans (by simpa using control)
      cases last : f.fin with
      | true => simp [Header.opens,header,control,last,((assemble fs).add_final data last).2.2]
      | false => simp [Header.opens,header,control,last,((assemble fs).add_part data last).2.2]

/-- The header of a complete frame is the one read before it was. -/
theorem readHeader_parse {b rest : Bytes} {f : Frame} (found : parse b = some (f,rest)) :
    readHeader b = some f.header := by
  obtain ⟨off,len,ext,_,whole⟩ := parse_extent found
  simp only [parse,ext,if_neg (Nat.not_lt.mpr whole)] at found
  obtain ⟨rfl,_⟩ := Prod.mk.inj (Option.some.inj found)
  have carried : (slice b (payloadStart b off) (payloadStart b off + len)).length = len := by
    simp only [slice,List.length_drop,List.length_take]
    omega
  rw [readHeader,ext]
  cases mask : masked b <;> simp [header,unmask_length,carried]

theorem headers_append {a : Bytes} {fs : List Frame} (whole : split a = (fs,[])) (b : Bytes) :
    headers (a ++ b) = fs.map header ++ headers b := by
  rw [headers,split_whole whole,List.map_append,List.append_assoc,headers]

theorem headers_incomplete {b : Bytes} (short : parse b = none) : headers b = (readHeader b).toList := by
  rw [headers,split_none short]
  rfl

end FipsShield.Frame
