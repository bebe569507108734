import FipsShield.Library.Head
import FipsShield.Library.Decimal

/-! The answers of an HTTP/1.1 server, as a client reads them: a status line, field lines, and as
many bytes as the one `Content-Length` field says, or none where the response has no content. -/
namespace FipsShield.Reply
open Text Head Numeral

structure Message where
  status : Nat
  fields : List Str
  body : Bytes

/-- The lines before the empty one, of which the first has begun, and what comes after it. -/
def head (line : Bytes) : Bytes → Option (List Bytes × Bytes)
  | 0x0D::0x0A::rest => if line = [] then some ([],rest) else (head [] rest).map fun read => (line::read.1,read.2)
  | u::rest => head (line ++ [u]) rest
  | [] => none

def number (s : Str) : Option Nat := if s ≠ [] ∧ s.all isDigit then some (digitsValue s) else none

/-- The three digits after the version. -/
def statusOf (first : Str) : Option Nat :=
  if (str "HTTP/1.1 ").isPrefixOf first ∧ first[12]? = some 0x20 then number ((first.drop 9).take 3) else none

/-- The values of the fields with a name. -/
def values (name : String) (fields : List Str) : List Str := (fields.filterMap (fieldValue name)).map trimOws

def contentLength (fields : List Str) : Option Nat :=
  match values "content-length" fields with
  | [value] => number value
  | _ => none

/-- A response that ends at the empty line: one to `HEAD`, or of a status without content. -/
def bodiless (asksHead : Bool) (status : Nat) : Bool := asksHead || status < 200 || status == 204 || status == 304

def read (asksHead : Bool) (b : Bytes) : Option (Message × Bytes) := do
  let (lines,rest) ← head [] b
  let status ← (lines.map toString).head?.bind statusOf
  let fields := (lines.map toString).tail
  if bodiless asksHead status then some (⟨status,fields,[]⟩,rest) else do
    let length ← contentLength fields
    if length ≤ rest.length then some (⟨status,fields,rest.take length⟩,rest.drop length) else none

theorem number_natText (n : Nat) : number (natText n) = some n := by
  rw [number,if_pos ⟨natText_ne_nil n,List.all_eq_true.mpr (natText_digits n)⟩,digitsValue_natText]

/-! ## Fields -/

/-- A field line, of a name and what is written of a value. -/
def fieldLine (field : Str × Str) : Str := field.1 ++ 0x3A::field.2

section Fields
variable {fields : List (Str × Str)}

theorem fieldValue_line (name : String) {field : Str × Str} (free : 0x3A ∉ field.1) :
    fieldValue name (fieldLine field) = if field.1.map lower = str name then some field.2 else none := by
  have all : ∀ u ∈ field.1, (u != 0x3A) = true := fun u own => by simpa using fun same : u = 0x3A => free (same ▸ own)
  have written : (fieldLine field).takeWhile (· != 0x3A) = field.1 := by
    rw [fieldLine,List.takeWhile_append_of_pos all,List.takeWhile_cons_of_neg (by simp),List.append_nil]
  have rest : (fieldLine field).drop (field.1.length + 1) = field.2 := by simp [fieldLine]
  have more : field.1.length < (fieldLine field).length := by simp [fieldLine]
  simp only [fieldValue,written,rest,more,and_true]

theorem values_lines (name : String) (free : ∀ field ∈ fields, 0x3A ∉ field.1) :
    values name (fields.map fieldLine) = (fields.filter fun field => field.1.map lower = str name).map fun field => trimOws field.2 := by
  have each : (fields.map fieldLine).filterMap (fieldValue name) =
      (fields.filter fun field => field.1.map lower = str name).map Prod.snd := by
    induction fields with
    | nil => rfl
    | cons field fields ih =>
      have rest := ih fun other own => free other (List.mem_cons_of_mem _ own)
      have first := fieldValue_line name (free field List.mem_cons_self)
      by_cases named : field.1.map lower = str name
      · rw [if_pos named] at first
        rw [List.map_cons,List.filterMap_cons_some first,List.filter_cons_of_pos (by simpa using named),rest]
        rfl
      · rw [if_neg named] at first
        rw [List.map_cons,List.filterMap_cons_none first,List.filter_cons_of_neg (by simpa using named),rest]
  rw [values,each,List.map_map]
  rfl

theorem trimOws_inner {s : Str} (first : ∀ u ∈ s.head?, isOws u = false) (last : ∀ u ∈ s.getLast?, isOws u = false) :
    trimOws (0x20::s) = s := by
  have black {t : Str} (starts : ∀ u ∈ t.head?, isOws u = false) : t.dropWhile isOws = t := by
    cases t with
    | nil => rfl
    | cons u t => exact List.dropWhile_cons_of_neg (by simp [starts u rfl])
  have space : (0x20::s).dropWhile isOws = s := by
    rw [List.dropWhile_cons_of_pos rfl,black first]
  rw [trimOws,space,black (by rwa [List.head?_reverse]),List.reverse_reverse]

end Fields

/-! ## The head -/

section Read
variable {line body rest : Bytes} {lines : List Bytes}

/-- A line that a client does not divide. -/
def Plain (line : Bytes) : Prop := line ≠ [] ∧ (0x0D : UInt8) ∉ line

theorem head_line (front : Bytes) (free : (0x0D : UInt8) ∉ line) (tail : Bytes) :
    head front (line ++ (crlf ++ tail)) = head (front ++ line) (crlf ++ tail) := by
  induction line generalizing front with
  | nil => simp
  | cons u line ih =>
    have other : u ≠ 0x0D := fun same => free (by simp [same])
    have step : head front (u::(line ++ (crlf ++ tail))) = head (front ++ [u]) (line ++ (crlf ++ tail)) := by
      rw [head]
      exact fun _ same => absurd same other
    rw [List.cons_append,step,ih (front ++ [u]) fun member => free (List.mem_cons_of_mem _ member)]
    simp

theorem head_ends (filled : line ≠ []) (tail : Bytes) :
    head line (crlf ++ tail) = (head [] tail).map fun read => (line::read.1,read.2) := by
  change head line (0x0D::0x0A::tail) = _
  rw [head,if_neg filled]

theorem head_block (plain : ∀ line ∈ lines, Plain line) (rest : Bytes) : head [] (block lines ++ rest) = some (lines,rest) := by
  induction lines with
  | nil => rfl
  | cons line lines ih =>
    obtain ⟨filled,free⟩ := plain line List.mem_cons_self
    have split : block (line::lines) ++ rest = line ++ (crlf ++ (block lines ++ rest)) := by simp [block]
    rw [split,head_line [] free,List.nil_append,head_ends filled,ih fun line own => plain line (List.mem_cons_of_mem _ own)]
    rfl

/-- A message that says its length is read to its end, whatever comes after it. -/
theorem read_block {first : Bytes} {status : Nat} (plain : ∀ line ∈ first::lines, Plain line)
    (starts : statusOf (toString first) = some status) (bodied : bodiless false status = false)
    (length : contentLength (lines.map toString) = some body.length) (rest : Bytes) :
    read false (block (first::lines) ++ (body ++ rest)) = some (⟨status,lines.map toString,body⟩,rest) := by
  have fits : body.length ≤ (body ++ rest).length := by simp
  simp only [read,head_block plain,Option.bind_eq_bind,Option.bind_some,List.map_cons,List.head?_cons,List.tail_cons,starts,
    bodied,Bool.false_eq_true,if_false,length,if_pos fits,List.take_left,List.drop_left]

/-- After `HEAD` a message is read to the empty line, and its body is left. -/
theorem read_head {first : Bytes} {status : Nat} (plain : ∀ line ∈ first::lines, Plain line)
    (starts : statusOf (toString first) = some status) (rest : Bytes) :
    read true (block (first::lines) ++ rest) = some (⟨status,lines.map toString,[]⟩,rest) := by
  simp [read,head_block plain,starts,bodiless]

end Read

end FipsShield.Reply
