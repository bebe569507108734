import FipsShield.Library.Text
import Mathlib.Algebra.Group.Nat.Defs

/-! The WebSocket frame grammar of RFC 6455 over byte streams: reading one
frame, splitting a stream into its complete frames, and joining the fragments
of data messages. -/
namespace FipsShield
open Buffer

structure Frame where
  fin : Bool
  reserved : UInt8
  opcode : Nat
  key : Option Bytes
  /-- Payload with the mask removed. -/
  payload : Bytes
  /-- The bytes of the frame as they stand in the stream. -/
  raw : Bytes
  deriving DecidableEq

namespace Frame

def control (f : Frame) : Bool := 8 ≤ f.opcode

/-- The seven-bit length, whose two largest values announce a longer field. -/
def shortLength (b : Bytes) : Nat := (byteAt b 1 &&& 0x7F).toNat

/-- Where the length field ends, and the payload length it gives. -/
def extent (b : Bytes) : Option (Nat × Nat) :=
  if b.length < 2 then none
  else if shortLength b = 126 then (if b.length < 4 then none else some (4,readUInt16BE b 2))
  else if shortLength b = 127 then
    (if b.length < 10 then none else some (10,readUInt32BE b 2 * 2 ^ 32 + readUInt32BE b 6))
  else some (2,shortLength b)

def masked (b : Bytes) : Bool := byteAt b 1 &&& 0x80 != 0

def unmask (key payload : Bytes) : Bytes :=
  payload.zipIdx.map fun (x,i) => x ^^^ byteAt key (i % 4)

def payloadStart (b : Bytes) (off : Nat) : Nat := if masked b then off + 4 else off

/-- The first frame of a stream and the bytes after it, once it is complete. -/
def parse (b : Bytes) : Option (Frame × Bytes) :=
  match extent b with
  | none => none
  | some (off,len) =>
    let start := payloadStart b off
    let carried := slice b start (start + len)
    if b.length < start + len then none
    else some (
      { fin := byteAt b 0 &&& 0x80 != 0
        reserved := byteAt b 0 &&& 0x70
        opcode := (byteAt b 0 &&& 0x0F).toNat
        key := if masked b then some (slice b off start) else none
        payload := if masked b then unmask (slice b off start) carried else carried
        raw := b.take (start + len) },b.drop (start + len))

theorem unmask_zero {key : Bytes} (zero : ∀ i, byteAt key i = 0) (payload : Bytes) :
    unmask key payload = payload := by
  simp [unmask,zero]

theorem unmask_length (key payload : Bytes) : (unmask key payload).length = payload.length := by
  simp [unmask]

theorem extent_bounds {b : Bytes} {off len : Nat} (found : extent b = some (off,len)) :
    2 ≤ off ∧ off ≤ b.length := by
  unfold extent at found
  split_ifs at found <;> obtain ⟨rfl,rfl⟩ := Prod.mk.inj (Option.some.inj found) <;> omega

theorem extent_le {b : Bytes} {off len : Nat} (found : extent b = some (off,len)) : off ≤ 10 := by
  unfold extent at found
  split_ifs at found <;> obtain ⟨rfl,rfl⟩ := Prod.mk.inj (Option.some.inj found) <;> omega

theorem le_payloadStart (b : Bytes) (off : Nat) : off ≤ payloadStart b off := by
  unfold payloadStart
  split_ifs <;> omega

theorem extent_append {b : Bytes} {off len : Nat} (found : extent b = some (off,len)) (c : Bytes) :
    extent (b ++ c) = some (off,len) := by
  have bounds := extent_bounds found
  have second : shortLength (b ++ c) = shortLength b := by
    rw [shortLength,byteAt_append b c 1 (by omega),shortLength]
  unfold extent at found ⊢
  simp only [second,List.length_append]
  split_ifs at found with tiny two short eight long
  · rw [if_neg (by omega),if_pos two,if_neg (by omega),readUInt16BE_append b c 2 (by omega)]
    exact found
  · rw [if_neg (by omega),if_neg two,if_pos eight,if_neg (by omega),
      readUInt32BE_append b c 2 (by omega),readUInt32BE_append b c 6 (by omega)]
    exact found
  · rw [if_neg (by omega),if_neg two,if_neg eight]
    exact found

/-- A complete frame is read the same whatever follows it. -/
theorem parse_append {b rest : Bytes} {f : Frame} (found : parse b = some (f,rest)) (c : Bytes) :
    parse (b ++ c) = some (f,rest ++ c) := by
  unfold parse at found ⊢
  cases ext : extent b with
  | none => simp [ext] at found
  | some pair =>
    obtain ⟨off,len⟩ := pair
    have bounds := extent_bounds ext
    have first : byteAt (b ++ c) 0 = byteAt b 0 := byteAt_append b c 0 (by omega)
    have mask : masked (b ++ c) = masked b := by
      rw [masked,byteAt_append b c 1 (by omega),masked]
    have start : payloadStart (b ++ c) off = payloadStart b off := by
      rw [payloadStart,mask,payloadStart]
    simp only [ext,extent_append ext,first,mask,start] at found ⊢
    by_cases short : b.length < payloadStart b off + len
    · simp [short] at found
    · rw [if_neg short] at found
      rw [if_neg (by rw [List.length_append]; omega),
        slice_append b c off (payloadStart b off) (by omega),
        slice_append b c (payloadStart b off) _ (by omega),List.take_append_of_le_length (by omega),
        List.drop_append_of_le_length (by omega)]
      obtain ⟨rfl,rfl⟩ := Prod.mk.inj (Option.some.inj found)
      rfl

theorem parse_raw {b rest : Bytes} {f : Frame} (found : parse b = some (f,rest)) :
    b = f.raw ++ rest ∧ 2 ≤ f.raw.length := by
  unfold parse at found
  cases ext : extent b with
  | none => simp [ext] at found
  | some pair =>
    obtain ⟨off,len⟩ := pair
    have bounds := extent_bounds ext
    have start := le_payloadStart b off
    simp only [ext] at found
    by_cases short : b.length < payloadStart b off + len
    · simp [short] at found
    · rw [if_neg short] at found
      obtain ⟨rfl,rfl⟩ := Prod.mk.inj (Option.some.inj found)
      refine ⟨(List.take_append_drop _ _).symm,?_⟩
      simp only [List.length_take]
      omega

theorem extent_of_append {b c : Bytes} {off len : Nat} (found : extent (b ++ c) = some (off,len))
    (inside : off ≤ b.length) : extent b = some (off,len) := by
  have bounds := extent_bounds found
  have second : shortLength (b ++ c) = shortLength b := by
    rw [shortLength,byteAt_append b c 1 (by omega),shortLength]
  cases own : extent b with
  | some pair => rw [← extent_append own c,found]
  | none =>
    unfold extent at found own
    rw [second,List.length_append] at found
    split_ifs at found own
    all_goals
      cases found
      omega

theorem parse_isSome {b : Bytes} {off len : Nat} (found : extent b = some (off,len)) :
    (parse b).isSome = true ↔ payloadStart b off + len ≤ b.length := by
  simp only [parse,found]
  by_cases short : b.length < payloadStart b off + len
  · rw [if_pos short]
    exact iff_of_false (by simp) (by omega)
  · rw [if_neg short]
    exact iff_of_true rfl (by omega)

theorem parse_extent {b rest : Bytes} {f : Frame} (found : parse b = some (f,rest)) :
    ∃ off len, extent b = some (off,len) ∧ f.raw = b.take (payloadStart b off + len) ∧
      payloadStart b off + len ≤ b.length := by
  cases ext : extent b with
  | none => simp [parse,ext] at found
  | some pair =>
    obtain ⟨off,len⟩ := pair
    have whole := (parse_isSome ext).mp (by simp [found])
    simp only [parse,ext,if_neg (Nat.not_lt.mpr whole)] at found
    obtain ⟨rfl,_⟩ := Prod.mk.inj (Option.some.inj found)
    exact ⟨off,len,rfl,rfl,whole⟩

theorem parse_self {b rest : Bytes} {f : Frame} (found : parse b = some (f,rest)) :
    parse f.raw = some (f,[]) := by
  obtain ⟨cut,long⟩ := parse_raw found
  cases own : parse f.raw with
  | some pair =>
    obtain ⟨g,more⟩ := pair
    have whole := parse_append own rest
    rw [← cut,found] at whole
    obtain ⟨rfl,same⟩ := Prod.mk.inj (Option.some.inj whole)
    rw [List.append_left_eq_self.mp same.symm]
  | none =>
    obtain ⟨off,len,ext,raw,whole⟩ := parse_extent found
    have size : f.raw.length = payloadStart b off + len := by
      rw [raw,List.length_take]
      omega
    have start := le_payloadStart b off
    have second : byteAt b 1 = byteAt f.raw 1 := by
      conv_lhs => rw [cut]
      exact byteAt_append f.raw rest 1 (by omega)
    have same : payloadStart f.raw off = payloadStart b off := by
      rw [payloadStart,masked,← second,payloadStart,masked]
    have inside : extent f.raw = some (off,len) := extent_of_append (cut ▸ ext) (by omega)
    have read := (parse_isSome inside).mpr (by omega)
    simp [own] at read

def split (b : Bytes) : List Frame × Bytes :=
  match _found : parse b with
  | none => ([],b)
  | some (f,rest) => (f :: (split rest).1,(split rest).2)
termination_by b.length
decreasing_by
  all_goals
    have cut := parse_raw _found
    have lengths := congrArg List.length cut.1
    simp only [List.length_append] at lengths
    omega

theorem split_none {b : Bytes} (none : parse b = none) : split b = ([],b) := by
  rw [split]
  split <;> simp_all

theorem split_some {b rest : Bytes} {f : Frame} (found : parse b = some (f,rest)) :
    split b = (f :: (split rest).1,(split rest).2) := by
  rw [split]
  split <;> simp_all

@[simp] theorem split_nil : split [] = ([],[]) := split_none (by simp [parse,extent])

/-- Splitting goes on where an earlier part of the stream left off. -/
theorem split_append (a b : Bytes) :
    split (a ++ b) = ((split a).1 ++ (split ((split a).2 ++ b)).1,(split ((split a).2 ++ b)).2) := by
  induction size : a.length using Nat.strongRecOn generalizing a with
  | ind n ih =>
    cases found : parse a with
    | none => simp [split_none found]
    | some pair =>
      obtain ⟨f,rest⟩ := pair
      have cut := parse_raw found
      have shorter : rest.length < n := by
        have lengths := congrArg List.length cut.1
        simp only [List.length_append] at lengths
        omega
      rw [split_some (parse_append found b),split_some found,ih _ shorter rest rfl]
      simp

theorem split_whole {a : Bytes} {fs : List Frame} (whole : split a = (fs,[])) (b : Bytes) :
    split (a ++ b) = (fs ++ (split b).1,(split b).2) := by
  rw [split_append,whole,List.nil_append]

theorem split_frame {a b rest : Bytes} {fs : List Frame} {f : Frame} (whole : split a = (fs,[]))
    (found : parse b = some (f,rest)) : split (a ++ f.raw) = (fs ++ [f],[]) := by
  rw [split_whole whole,split_some (parse_self found),split_nil]

end Frame

/-- What the frames of a stream amount to: the data messages completed, the
fragments of one still open, and how many bytes were in when nothing was. -/
structure Assembly where
  messages : List Bytes
  parts : List Bytes
  isOpen : Bool
  length : Nat
  settled : Nat
  deriving DecidableEq

namespace Assembly

def empty : Assembly := ⟨[],[],false,0,0⟩

def add (a : Assembly) (f : Frame) : Assembly :=
  let length := a.length + f.raw.length
  if f.control then {a with length,settled := if a.isOpen then a.settled else length}
  else if f.fin then ⟨a.messages ++ [(a.parts ++ [f.payload]).flatten],[],false,length,length⟩
  else {a with parts := a.parts ++ [f.payload],isOpen := true,length}

variable (a : Assembly) {f : Frame}

theorem add_control (control : f.control = true) :
    (a.add f).messages = a.messages ∧ (a.add f).parts = a.parts ∧ (a.add f).isOpen = a.isOpen := by
  simp [add,control]

theorem add_final (data : f.control = false) (final : f.fin = true) :
    (a.add f).messages = a.messages ++ [(a.parts ++ [f.payload]).flatten] ∧
      (a.add f).parts = [] ∧ (a.add f).isOpen = false := by
  simp [add,data,final]

theorem add_part (data : f.control = false) (more : f.fin = false) :
    (a.add f).messages = a.messages ∧ (a.add f).parts = a.parts ++ [f.payload] ∧
      (a.add f).isOpen = true := by
  simp [add,data,more]

end Assembly

def assemble (fs : List Frame) : Assembly := fs.foldl Assembly.add Assembly.empty

theorem assemble_concat (fs : List Frame) (f : Frame) :
    assemble (fs ++ [f]) = (assemble fs).add f := by simp [assemble]

/-- The offset at which the message or frame a stream leaves unfinished starts. -/
def unfinished (b : Bytes) : Option Nat :=
  let state := assemble (Frame.split b).1
  if state.isOpen || (Frame.split b).2 != [] then some state.settled else none

end FipsShield
