import FipsShield.Library.Text

/-! The head of an HTTP/1 request: its lines, the block from the request line to
the first empty line, and the protocols its Upgrade fields offer. -/
namespace FipsShield.Head
open Text

def crlf : Bytes := [0x0D,0x0A]

/-- A request or field line: one of a carriage return alone counts as one, and only a line
of nothing but CRLF as empty. -/
def Filled (line : Bytes) : Prop := line ≠ [] ∧ (0x0A : UInt8) ∉ line

def block (lines : List Bytes) : Bytes := lines.flatMap (· ++ crlf) ++ crlf

/-- Empty lines, then a request line and field lines up to the first empty line. -/
def RequestHead (head : Bytes) : Prop :=
  ∃ (blank : Nat) (lines : List Bytes), lines ≠ [] ∧ (∀ line ∈ lines, Filled line) ∧
    head = (List.replicate blank crlf).flatten ++ block lines

/-- The header block of the first request in a stream that skips empty lines
before a request line. -/
def HeaderBlock (head stream : Bytes) : Prop := head <+: stream ∧ RequestHead head

theorem requestHead_length {head : Bytes} (request : RequestHead head) : 5 ≤ head.length := by
  obtain ⟨blank,lines,present,good,rfl⟩ := request
  cases lines with
  | nil => contradiction
  | cons line rest =>
    have filled := List.length_pos_iff.mpr (good line (by simp)).1
    simp only [block,List.flatMap_cons,List.length_append,crlf,List.length_cons,List.length_nil]
    omega

theorem reencode_crlf (line tail : Bytes) :
    encode (decode (line ++ (crlf ++ tail))) = encode (decode line) ++ (crlf ++ encode (decode tail)) := by
  have cr : (0x0D : UInt8) < 0x80 := by decide
  have lf : (0x0A : UInt8) < 0x80 := by decide
  change encode (decode (line ++ 0x0D::([] ++ 0x0A::tail))) = _
  rw [reencode_append_ascii _ cr,reencode_append_ascii _ lf,decode_nil]
  rfl

theorem reencode_lines (lines : List Bytes) (tail : Bytes) :
    encode (decode (lines.flatMap (· ++ crlf) ++ tail)) =
      (lines.map fun line => encode (decode line)).flatMap (· ++ crlf) ++ encode (decode tail) := by
  induction lines with
  | nil => simp
  | cons line rest ih =>
    simp only [List.flatMap_cons,List.map_cons,List.append_assoc,reencode_crlf,ih]

/-- Decoding a request head and encoding it again keeps its lines. -/
theorem requestHead_reencode {head : Bytes} (request : RequestHead head) :
    RequestHead (encode (decode head)) := by
  obtain ⟨blank,lines,present,good,rfl⟩ := request
  refine ⟨blank,lines.map fun line => encode (decode line),by simpa using present,?_,?_⟩
  · intro line member
    obtain ⟨original,inside,rfl⟩ := List.mem_map.mp member
    obtain ⟨filled,plain⟩ := good original inside
    refine ⟨fun empty => filled ((reencode_eq_nil original).mp empty),?_⟩
    rwa [ascii_mem_reencode 0x0A (by decide)]
  · have blanks : (List.replicate blank crlf).flatten =
        (List.replicate blank ([] : Bytes)).flatMap (· ++ crlf) := by
      simp [List.flatMap]
    have kept : (List.replicate blank ([] : Bytes)).map (fun line => encode (decode line)) =
        List.replicate blank [] := by
      simp [encode]
    have last : encode (decode crlf) = crlf := by
      have line := reencode_crlf [] []
      simpa [encode] using line
    rw [blanks,block,reencode_lines,kept,reencode_lines,last,block]

/-! Fields of a head that has been decoded to a string. -/

def lower (u : UInt16) : UInt16 := if 0x41 ≤ u ∧ u ≤ 0x5A then u + 0x20 else u

def isOws (u : UInt16) : Bool := u == 0x20 || u == 0x09

def lines : Str → List Str
  | 0x0D::0x0A::rest => [] :: lines rest
  | u::rest =>
    match lines rest with
    | line::others => (u::line)::others
    | [] => [[u]]
  | [] => [[]]

def fieldLines (head : Str) : List Str := ((lines head).dropWhile (· == [])).drop 1

/-- The value of a field line with this name, names compared without case. -/
def fieldValue (name : String) (line : Str) : Option Str :=
  let written := line.takeWhile (· != 0x3A)
  if written.map lower = str name ∧ written.length < line.length then
    some (line.drop (written.length + 1))
  else none

def trimOws (s : Str) : Str := (((s.dropWhile isOws).reverse).dropWhile isOws).reverse

/-- The protocol names of a comma-separated list, versions left out. -/
def protocolNames (value : Str) : List Str :=
  (value.splitOn 0x2C).map fun item => ((trimOws item).takeWhile (· != 0x2F)).map lower

/-- Whether an Upgrade field of the head names a protocol. -/
def offers (protocol : String) (head : Str) : Bool :=
  (fieldLines head).any fun line =>
    match fieldValue "upgrade" line with
    | some value => (protocolNames value).contains (str protocol)
    | none => false

/-- A line that starts as an Upgrade field with the protocol first in its list. -/
def leadsWith (protocol : String) (line : Str) : Bool :=
  (str "upgrade:").isPrefixOf (line.map lower) &&
    (str protocol).isPrefixOf (((line.map lower).drop 8).dropWhile isOws)

theorem lines_split (s : Str) : ∃ line others, lines s = line::others ∧
    (s = line ∨ ∃ rest, s = line ++ 0x0D::rest) := by
  fun_induction lines s with
  | case1 rest ih => exact ⟨[],lines rest,rfl,Or.inr ⟨0x0A::rest,rfl⟩⟩
  | case2 u rest _ line others found ih =>
    obtain ⟨first,later,same,shape⟩ := ih
    rw [found] at same
    obtain ⟨rfl,rfl⟩ := List.cons.inj same
    refine ⟨u::line,others,rfl,?_⟩
    rcases shape with rfl | ⟨tail,rfl⟩
    · exact Or.inl rfl
    · exact Or.inr ⟨tail,rfl⟩
  | case3 u rest _ none ih =>
    obtain ⟨line,others,same,_⟩ := ih
    rw [none] at same
    contradiction
  | case4 => exact ⟨[],[],rfl,Or.inl rfl⟩

theorem isPrefixOf_append_stop (p line tail : Str) (stop : UInt16) (absent : stop ∉ p) :
    p.isPrefixOf (line ++ stop::tail) = p.isPrefixOf line := by
  induction p generalizing line with
  | nil => simp
  | cons u p ih =>
    have differs : (u == stop) = false := by
      simp only [beq_eq_false_iff_ne]
      rintro rfl
      exact absent (by simp)
    cases line with
    | nil => simp [List.isPrefixOf,differs]
    | cons v line =>
      simp only [List.cons_append,List.isPrefixOf]
      rw [ih line (fun member => absent (by simp [member]))]

theorem leadsWith_append (protocol : String) (absent : (0x0D : UInt16) ∉ str protocol)
    (line tail : Str) : leadsWith protocol (line ++ 0x0D::tail) = leadsWith protocol line := by
  have cr : lower 0x0D = 0x0D := by decide
  have name : (0x0D : UInt16) ∉ str "upgrade:" := by decide
  simp only [leadsWith,List.map_append,List.map_cons,cr]
  rw [isPrefixOf_append_stop _ _ _ _ name]
  cases led : (str "upgrade:").isPrefixOf (line.map lower) with
  | false => simp
  | true =>
    have size : 8 ≤ (line.map lower).length := by
      have prefixed := (List.isPrefixOf_iff_prefix.mp led).length_le
      have eight : (str "upgrade:").length = 8 := by decide
      omega
    have stops : ∀ u ∈ (0x0D::tail.map lower).head?, isOws u = false := by
      rintro u ⟨⟩
      decide
    rw [List.drop_append_of_le_length size,(dropWhile_append_stop fun _ => stops).2,
      isPrefixOf_append_stop _ _ _ _ absent]

example : offers "websocket" (str "GET / HTTP/1.1\r\nUpgrade: h2c, WebSocket/13\r\n\r\n") = true := by
  decide +kernel

end FipsShield.Head
