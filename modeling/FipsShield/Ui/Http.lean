import FipsShield.Library.Percent
import FipsShield.Library.Pieces
import FipsShield.Config.Tree
import FipsShield.Ui.Json

/-! The requests of the UI (`ui/src/http.rs`): what is made of the escapes in a target, and where
a request ends. -/
namespace FipsShield.Ui
open Text Percent Pieces Lines

/-- `std::str::from_utf8`, of which the bytes are kept. -/
def fromUtf8 (b : Bytes) : Option Bytes := if encode (decode b) = b then some b else none

/-- `u8::from_str_radix` in base 16, which takes a plus sign before the digits. -/
def fromStrRadix : Bytes → Option UInt8
  | [] | [0x2B] | [0x2D] => none
  | first::rest =>
    let digits := if first = 0x2B then rest else first::rest
    (digits.foldlM (fun value u => do
      let value := value * 16 + (← hexDigit u)
      if value < 256 then some value else none) 0).map UInt8.ofNat

/-- The loop of `percent_decode`, over the bytes from its index on. -/
def percentBytes (b : Bytes) : Bytes :=
  match b with
  | [] => []
  | c::rest =>
    if c = 0x2B then 0x20::percentBytes rest
    else if c = 0x25 ∧ 2 < (c::rest).length then
      match (fromUtf8 (rest.take 2)).bind fromStrRadix with
      | some v => v::percentBytes (rest.drop 2)
      | none => c::percentBytes rest
    else c::percentBytes rest
termination_by b.length
decreasing_by
  all_goals
    simp only [List.length_drop,List.length_cons]
    omega

def percentDecode (s : List Char) : List Char := decode (percentBytes (encode s))

example : percentDecode "a%20b+c".toList = "a b c".toList := by decide +kernel
example : percentDecode "100%zz".toList = "100%zz".toList := by decide +kernel

/-! ## Escapes -/

theorem fromUtf8_ascii {x y : UInt8} (first : x < 0x80) (second : y < 0x80) : fromUtf8 [x,y] = some [x,y] := by
  refine if_pos ?_
  rw [decode_ascii x first,decode_ascii y second,decode_nil]
  simp [encode,encode_ascii x first,encode_ascii y second]

theorem fromStrRadix_signed (y : UInt8) : fromStrRadix [0x2B,y] = (hexDigit y).map UInt8.ofNat := by
  cases digit : hexDigit y with
  | none => simp [fromStrRadix,digit]
  | some d =>
    have small := (hexDigit_bounds digit).1
    have fits : d < 256 := by omega
    simp [fromStrRadix,digit,fits]

theorem fromStrRadix_pair {x : UInt8} (unsigned : x ≠ 0x2B) (y : UInt8) : fromStrRadix [x,y] = hexByte x y := by
  cases first : hexDigit x with
  | none => simp [fromStrRadix,unsigned,first,hexByte]
  | some a =>
    have low := (hexDigit_bounds first).1
    cases second : hexDigit y with
    | none => simp [fromStrRadix,unsigned,first,second,hexByte]
    | some b =>
      have low' := (hexDigit_bounds second).1
      have fits : a < 256 ∧ a * 16 + b < 256 := by omega
      simp [fromStrRadix,unsigned,first,second,hexByte,fits]

/-- What the two bytes after a percent sign are read as. -/
theorem digits_read (x y : UInt8) : (fromUtf8 [x,y]).bind fromStrRadix =
    if x = 0x2B then (hexDigit y).map UInt8.ofNat else hexByte x y := by
  have read : fromStrRadix [x,y] = if x = 0x2B then (hexDigit y).map UInt8.ofNat else hexByte x y := by
    split_ifs with plus
    · rw [plus,fromStrRadix_signed]
    · exact fromStrRadix_pair plus y
  rw [← read]
  cases value : fromStrRadix [x,y] with
  | none =>
    rw [fromUtf8]
    split_ifs
    · exact value
    · rfl
  | some v =>
    have ascii : x < 0x80 ∧ y < 0x80 := by
      rw [read] at value
      split_ifs at value with plus
      · obtain ⟨d,digit,_⟩ := Option.map_eq_some_iff.mp value
        exact ⟨plus ▸ by decide,(hexDigit_bounds digit).2.1⟩
      · obtain ⟨d,e,first,second,_⟩ := hexByte_some value
        exact ⟨(hexDigit_bounds first).2.1,(hexDigit_bounds second).2.1⟩
    rw [fromUtf8_ascii ascii.1 ascii.2]
    exact value

theorem percentBytes_nil : percentBytes [] = [] := by rw [percentBytes]

theorem percentBytes_escape {x y v : UInt8} (digits : hexByte x y = some v) (rest : Bytes) :
    percentBytes (0x25::x::y::rest) = v::percentBytes rest := by
  obtain ⟨_,_,first,_⟩ := hexByte_some digits
  have read := digits_read x y
  rw [if_neg (hexDigit_bounds first).2.2.2,digits] at read
  rw [percentBytes,if_neg (by decide),if_pos (by simp)]
  simp only [List.take_succ_cons,List.take_zero,read,List.drop_succ_cons,List.drop_zero]

/-- A signed digit is taken for an escape. -/
theorem percentBytes_signed {y : UInt8} {d : Nat} (digit : hexDigit y = some d) (rest : Bytes) :
    percentBytes (0x25::0x2B::y::rest) = UInt8.ofNat d::percentBytes rest := by
  have read := digits_read 0x2B y
  rw [if_pos rfl,digit] at read
  rw [percentBytes,if_neg (by decide),if_pos (by simp)]
  simp only [List.take_succ_cons,List.take_zero,read,Option.map_some,List.drop_succ_cons,List.drop_zero]

/-- Everything else stays, but for a plus sign. -/
theorem percentBytes_other {c : UInt8} {rest : Bytes} (none : escapedByte (c::rest) = none)
    (unsigned : ∀ y later, rest = 0x2B::y::later → c = 0x25 → hexDigit y = Option.none) :
    percentBytes (c::rest) = (if c = 0x2B then 0x20 else c)::percentBytes rest := by
  rw [percentBytes]
  split_ifs with plus long
  · rfl
  · obtain ⟨rfl,long⟩ := long
    match rest, long with
    | x::y::later, _ =>
      have read : (fromUtf8 [x,y]).bind fromStrRadix = Option.none := by
        rw [digits_read]
        split_ifs with sign
        · rw [unsigned y later (by rw [sign]) rfl]
          rfl
        · exact none
      simp only [List.take_succ_cons,List.take_zero,read]
  · rfl

/-- Some signed digit stands after a percent sign. -/
def Signed (b : Bytes) : Prop := ∃ y, (hexDigit y).isSome = true ∧ [0x25,0x2B,y] <:+: b

/-- Induction over the texts: a digit pair, a signed digit, and any other byte. -/
theorem percent_rule {motive : Bytes → Prop} (nil : motive [])
    (escaped : ∀ x y v rest, hexByte x y = some v → motive rest → motive (0x25::x::y::rest))
    (signed : ∀ y d rest, hexDigit y = some d → motive rest → motive (0x25::0x2B::y::rest))
    (other : ∀ c rest, escapedByte (c::rest) = none →
      (∀ y later, rest = 0x2B::y::later → c = 0x25 → hexDigit y = none) → motive rest → motive (c::rest))
    (b : Bytes) : motive b := by
  induction size : b.length using Nat.strongRecOn generalizing b with
  | ind n ih =>
    cases b with
    | nil => exact nil
    | cons c rest =>
      have shorter {later : Bytes} (fewer : later.length < (c::rest).length) : motive later := ih _ (size ▸ fewer) later rfl
      cases found : escapedByte (c::rest) with
      | some v =>
        obtain ⟨rfl,x,y,later,rfl,digits⟩ := escape_some found
        exact escaped x y v later digits (shorter (by simp only [List.length_cons]; omega))
      | none =>
        by_cases sign : ∃ y later d, rest = 0x2B::y::later ∧ c = 0x25 ∧ hexDigit y = some d
        · obtain ⟨y,later,d,rfl,rfl,digit⟩ := sign
          exact signed y d later digit (shorter (by simp only [List.length_cons]; omega))
        · refine other c rest found (fun y later split percent => ?_) (shorter (by simp))
          by_contra digit
          obtain ⟨d,digit⟩ := Option.ne_none_iff_exists'.mp digit
          exact sign ⟨y,later,d,split,percent,digit⟩

theorem signed_cons (c : UInt8) (rest : Bytes) : Signed (c::rest) ↔
    (∃ y later, (hexDigit y).isSome = true ∧ c = 0x25 ∧ rest = 0x2B::y::later) ∨ Signed rest := by
  simp only [Signed,List.infix_cons_iff,and_or_left,exists_or]
  refine or_congr_left (exists_congr fun y => ?_)
  constructor
  · rintro ⟨digit,later,same⟩
    obtain ⟨percent,rest⟩ := List.cons.inj same
    exact ⟨later,digit,percent.symm,rest.symm⟩
  · rintro ⟨later,digit,rfl,rfl⟩
    exact ⟨digit,later,rfl⟩

theorem signed_other {c : UInt8} {rest : Bytes}
    (unsigned : ∀ y later, rest = 0x2B::y::later → c = 0x25 → hexDigit y = none) : Signed (c::rest) ↔ Signed rest := by
  rw [signed_cons,or_iff_right]
  rintro ⟨y,later,digit,percent,split⟩
  rw [unsigned y later split percent] at digit
  cases digit

theorem signed_escape {x y v : UInt8} (digits : hexByte x y = some v) (rest : Bytes) :
    Signed (0x25::x::y::rest) ↔ Signed rest := by
  obtain ⟨_,_,first,second,_⟩ := hexByte_some digits
  obtain ⟨_,_,percent,plus⟩ := hexDigit_bounds first
  have percent' := (hexDigit_bounds second).2.2.1
  have apart : ∀ z later, x::y::rest = 0x2B::z::later → (0x25 : UInt8) = 0x25 → hexDigit z = none :=
    fun z later same => absurd (List.cons.inj same).1 plus
  have apart' : ∀ z later, y::rest = 0x2B::z::later → x = 0x25 → hexDigit z = none := fun _ _ _ same => absurd same percent
  have apart'' : ∀ z later, rest = 0x2B::z::later → y = 0x25 → hexDigit z = none := fun _ _ _ same => absurd same percent'
  rw [signed_other apart,signed_other apart',signed_other apart'']

theorem unescaped_signed {y : UInt8} {d : Nat} (digit : hexDigit y = some d) (rest : Bytes) :
    unescaped (0x25::0x2B::y::rest) = 0x25::0x20::y::unescaped rest := by
  obtain ⟨_,_,percent,plus⟩ := hexDigit_bounds digit
  have none : escapedByte (0x25::0x2B::y::rest) = Option.none := rfl
  have none' : escapedByte (0x2B::y::rest) = Option.none := rfl
  rw [unescaped_other none,unescaped_other none',unescaped_other (escape_percent percent rest),if_neg (by decide),
    if_pos rfl,if_neg plus]

/-- Where a signed digit is taken for an escape, a percent sign is lost. -/
theorem percentBytes_cases (b : Bytes) : ¬ Signed b ∧ percentBytes b = unescaped b ∨
    Signed b ∧ (percentBytes b).count 0x25 < (unescaped b).count 0x25 := by
  induction b using percent_rule with
  | nil =>
    refine Or.inl ⟨?_,by rw [percentBytes_nil,unescaped_nil]⟩
    rintro ⟨y,_,inside⟩
    exact absurd (List.eq_nil_of_infix_nil inside) (by simp)
  | escaped x y v rest digits ih =>
    rw [signed_escape digits,percentBytes_escape digits,unescaped_escape digits]
    refine ih.imp (fun same => ⟨same.1,by rw [same.2]⟩) fun lost => ⟨lost.1,?_⟩
    rw [List.count_cons,List.count_cons]
    have fewer := lost.2
    omega
  | signed y d rest digit ih =>
    refine Or.inr ⟨(signed_cons _ _).mpr (Or.inl ⟨y,rest,by rw [digit]; rfl,rfl,rfl⟩),?_⟩
    obtain ⟨small,_,percent,_⟩ := hexDigit_bounds digit
    have low : ∀ d < 16, UInt8.ofNat d ≠ 0x25 := by decide
    have fewer : (percentBytes rest).count 0x25 ≤ (unescaped rest).count 0x25 := by
      rcases ih with ⟨_,same⟩ | ⟨_,lost⟩
      · exact Nat.le_of_eq (by rw [same])
      · exact Nat.le_of_lt lost
    rw [percentBytes_signed digit,unescaped_signed digit,List.count_cons_of_ne (low d small),List.count_cons_self,
      List.count_cons_of_ne (by decide),List.count_cons_of_ne percent]
    omega
  | other c rest none unsigned ih =>
    rw [signed_other unsigned,percentBytes_other none unsigned,unescaped_other none]
    refine ih.imp (fun same => ⟨same.1,by rw [same.2]⟩) fun lost => ⟨lost.1,?_⟩
    rw [List.count_cons,List.count_cons]
    have fewer := lost.2
    omega

theorem percentBytes_encodes {plain text : Bytes} (encodes : Encodes plain text) : percentBytes text = plain := by
  induction encodes with
  | nil => exact percentBytes_nil
  | escaped digits _ ih => rw [percentBytes_escape digits,ih]
  | space _ ih => rw [percentBytes_other (escape_percent (by decide) _) (fun _ _ _ same => absurd same (by decide)),ih,if_pos rfl]
  | plain percent plus _ ih =>
    rw [percentBytes_other (escape_percent percent _) (fun _ _ _ same => absurd same percent),ih,if_neg plus]

/-- The decoder does what the escapes say exactly where no percent sign has a plus sign and a
digit after it, and it always gives back what was encoded. -/
theorem percentDecode_iff (s : List Char) :
    (percentDecode s = decode (unescaped (encode s)) ↔
      ∀ y, (hexDigit y).isSome = true → ¬ [0x25,0x2B,y] <:+: encode s) ∧
      ∀ t : List Char, Encodes (encode s) (encode t) → percentDecode t = s := by
  refine ⟨?_,fun t encodes => ?_⟩
  · have unsigned : (∀ y, (hexDigit y).isSome = true → ¬ [0x25,0x2B,y] <:+: encode s) ↔ ¬ Signed (encode s) := by
      simp only [Signed,not_exists,not_and]
    rw [unsigned,percentDecode]
    rcases percentBytes_cases (encode s) with ⟨none,same⟩ | ⟨some,lost⟩
    · exact iff_of_true (by rw [same]) none
    · refine iff_of_false (fun same => ?_) (not_not.mpr some)
      have counts := congrArg (List.count (Char.ofNat (0x25 : UInt8).toNat)) same
      rw [decode_count _ (by decide),decode_count _ (by decide)] at counts
      omega
  · rw [percentDecode,percentBytes_encodes encodes,decode_encode]

/-- `%+5` is taken for the byte 5. -/
theorem percentDecode_signed : ¬ ∀ s : List Char, percentDecode s = decode (unescaped (encode s)) := by
  intro claim
  have bytes : encode "%+5".toList = [0x25,0x2B,0x35] := by decide
  have read : percentDecode "%+5".toList = [Char.ofNat 5] := by
    rw [percentDecode,bytes,@percentBytes_signed 0x35 5 rfl,percentBytes_nil]
    decide +kernel
  have said : decode (unescaped (encode "%+5".toList)) = "% 5".toList := by
    rw [bytes,@unescaped_signed 0x35 5 rfl,unescaped_nil]
    decide +kernel
  have same := claim "%+5".toList
  rw [read,said] at same
  exact absurd same (by decide)

/-! ## Requests -/

def maxRequestLine : Nat := 8 * 1024
def maxHeaderBytes : Nat := 32 * 1024
def maxHeaders : Nat := 100

structure Request where
  path : List Char
  query : List (List Char × List Char)

structure Response where
  status : UInt16
  contentType : List Char
  body : List Char

def Response.error (status : UInt16) (msg : String) : Response :=
  ⟨status,"application/json; charset=utf-8".toList,(Obj.new.str "error".toList msg.toList).done.1⟩

/-- `char::is_whitespace`. -/
def isWhitespace (c : Char) : Bool := c.toNat < 0x10000 && Config.isWhite (UInt16.ofNat c.toNat)

def trimEnd (s : List Char) : List Char := (s.reverse.dropWhile isWhitespace).reverse

/-- `str::split_once`. -/
def splitOnce (c : Char) (s : List Char) : Option (List Char × List Char) :=
  if s.contains c then some (before c s,after c s) else none

def parseQuery (q : List Char) : List (List Char × List Char) :=
  ((q.splitOnP (· == '&')).filter fun p => !p.isEmpty).map fun p =>
    match splitOnce '=' p with
    | some (k,v) => (percentDecode k,percentDecode v)
    | none => (percentDecode p,[])

/-- The words of a request line. -/
def words (line : List Char) : List (List Char) := (trimEnd line).splitOnP (· == ' ')

def method (line : List Char) : List Char := (words line)[0]?.getD []

def target (line : List Char) : List Char := (words line)[1]?.getD []

def requested (line : List Char) : Request :=
  match splitOnce '?' (target line) with
  | some (p,q) => ⟨percentDecode p,parseQuery q⟩
  | none => ⟨percentDecode (target line),[]⟩

/-- `take(limit).read_line`: what is read, unless it is not UTF-8, and what is left. -/
def readLine (limit : Nat) (stream : Bytes) : Option Bytes × Bytes :=
  let line := through 0x0A (stream.take limit)
  (fromUtf8 line,stream.drop line.length)

def lineBreak (h : Bytes) : Bool := h == [0x0D,0x0A] || h == [0x0A]

/-- The loop over the headers, with so many reads left and so many bytes read. -/
def drainHeaders : Nat → Nat → Bytes → Except Response Unit × Bytes
  | 0, _, stream => (.error (.error 413 "too many headers"),stream)
  | left + 1, total, stream =>
    match readLine maxRequestLine stream with
    | (none,rest) => (.error (.error 400 "unreadable headers"),rest)
    | (some h,rest) =>
      if h.length = 0 ∨ lineBreak h = true then (.ok (),rest)
      else if maxHeaderBytes < total + h.length then (.error (.error 413 "headers too large"),rest)
      else drainHeaders left (total + h.length) rest

def readRequest (stream : Bytes) : Except Response Request × Bytes :=
  match readLine maxRequestLine stream with
  | (none,rest) => (.error (.error 400 "unreadable request"),rest)
  | (some line,rest) =>
    if line.length = 0 then (.error (.error 400 "empty request"),rest)
    else if maxRequestLine ≤ line.length ∧ line.getLast? ≠ some 0x0A then
      (.error (.error 413 "request line too long"),rest)
    else if method (decode line) ≠ "GET".toList then (.error (.error 405 "only GET is served"),rest)
    else
      let drained := drainHeaders maxHeaders 0 rest
      (drained.1.map fun _ => requested (decode line),drained.2)

/-! ## Where a request ends -/

/-- The header lines up to the blank line, with it, and what comes after. -/
def block (b : Bytes) : List Bytes × Bytes :=
  if b = [] then ([],[])
  else
    let line := through 0x0A b
    let rest := b.drop line.length
    if lineBreak line then ([line],rest) else (line::(block rest).1,(block rest).2)
termination_by b.length
decreasing_by
  all_goals
    next filled _ =>
      have some := List.length_pos_iff.mpr (through_filled 0x0A filled)
      have more := List.length_pos_iff.mpr filled
      rw [List.length_drop]
      omega

/-- The reads of some header lines, with the one that finds the end of the stream. -/
def headerReads (lines : List Bytes) : Nat :=
  (lines.flatMap (pieces maxRequestLine)).length + if lines.any lineBreak then 0 else 1

def headerBytes (lines : List Bytes) : Nat := (lines.filter fun line => !lineBreak line).flatten.length

/-! ## Reads -/

theorem fromUtf8_whole {b : Bytes} (whole : WellFormed b) : fromUtf8 b = some b := if_pos ((reencode_iff b).mpr whole)

theorem fromUtf8_broken {b : Bytes} (broken : ¬ WellFormed b) : fromUtf8 b = none :=
  if_neg ((reencode_iff b).not.mpr broken)

theorem lineBreak_whole {h : Bytes} (blank : lineBreak h = true) : WellFormed h := by
  rw [lineBreak,Bool.or_eq_true,beq_iff_eq,beq_iff_eq] at blank
  rcases blank with rfl | rfl
  · exact ⟨['\r','\n'],by decide⟩
  · exact ⟨['\n'],by decide⟩

theorem readLine_cons {stream : Bytes} (filled : stream ≠ []) : ∃ piece, piece ≠ [] ∧
    readLine maxRequestLine stream = (fromUtf8 piece,stream.drop piece.length) ∧
      reads 0x0A maxRequestLine stream = piece::reads 0x0A maxRequestLine (stream.drop piece.length) := by
  have split := @reads_cons _ _ (0x0A : UInt8) maxRequestLine (by decide) stream filled
  refine ⟨(through 0x0A stream).take maxRequestLine,?_,?_,split⟩
  · exact @reads_filled _ _ (0x0A : UInt8) maxRequestLine (by decide) stream _ (split ▸ List.mem_cons_self)
  · rw [readLine,through_take]

/-- What some reads leave, if the headers end at one of them. -/
inductive Ends : List Bytes → Bytes → Prop where
  | stream : Ends [] []
  | blank {piece : Bytes} (later : List Bytes) (broken : lineBreak piece = true) : Ends (piece::later) later.flatten

/-- Whether some reads are of texts of headers, none of which is a line break. -/
def Kept (front : List Bytes) : Prop := ∀ piece ∈ front, WellFormed piece ∧ lineBreak piece = false

theorem Kept.nil : Kept [] := by simp [Kept]

/-- Whether some reads are texts of headers, within the bounds, up to the one that ends them. -/
def Drains (left total : Nat) (reads : List Bytes) (rest : Bytes) : Prop := ∃ front back, reads = front ++ back ∧ Kept front ∧
  front.length < left ∧ total + front.flatten.length ≤ maxHeaderBytes ∧ Ends back rest

section Drains
variable {left total : Nat} {piece rest : Bytes} {later : List Bytes}

theorem drains_none (within : total ≤ maxHeaderBytes) : Drains (left + 1) total [] rest ↔ rest = [] := by
  constructor
  · rintro ⟨front,back,none,_,_,_,ends⟩
    obtain ⟨rfl,rfl⟩ := List.append_eq_nil_iff.mp none.symm
    cases ends
    rfl
  · rintro rfl
    exact ⟨[],[],rfl,.nil,Nat.succ_pos _,by simpa using within,.stream⟩

theorem drains_blank (within : total ≤ maxHeaderBytes) (blank : lineBreak piece = true) :
    Drains (left + 1) total (piece::later) rest ↔ rest = later.flatten := by
  constructor
  · rintro ⟨front,back,same,texts,_,_,ends⟩
    cases front with
    | nil =>
      rw [List.nil_append] at same
      rw [← same] at ends
      cases ends
      rfl
    | cons first front =>
      obtain ⟨rfl,_⟩ := List.cons.inj same
      have text := (texts piece List.mem_cons_self).2
      rw [blank] at text
      cases text
  · rintro rfl
    exact ⟨[],_,rfl,.nil,Nat.succ_pos _,by simpa using within,.blank later blank⟩

theorem drains_text (text : lineBreak piece = false) : Drains (left + 1) total (piece::later) rest ↔
    WellFormed piece ∧ Drains left (total + piece.length) later rest := by
  constructor
  · rintro ⟨front,back,same,texts,few,bytes,ends⟩
    cases front with
    | nil =>
      rw [List.nil_append] at same
      rw [← same] at ends
      cases ends with
      | blank _ broken =>
        rw [text] at broken
        cases broken
    | cons first front =>
      obtain ⟨rfl,same'⟩ := List.cons.inj same
      obtain ⟨⟨whole,_⟩,texts'⟩ := List.forall_mem_cons.mp texts
      rw [List.flatten_cons,List.length_append] at bytes
      exact ⟨whole,front,back,same',texts',Nat.lt_of_succ_lt_succ few,by omega,ends⟩
  · rintro ⟨whole,front,back,same,texts,few,bytes,ends⟩
    refine ⟨piece::front,back,by rw [same]; rfl,List.forall_mem_cons.mpr ⟨⟨whole,text⟩,texts⟩,Nat.succ_lt_succ few,?_,ends⟩
    rw [List.flatten_cons,List.length_append]
    omega

theorem Drains.bounded (drains : Drains left total later rest) : total ≤ maxHeaderBytes := by
  obtain ⟨_,_,_,_,_,bytes,_⟩ := drains
  omega

end Drains

/-- The loop ends well exactly where all reads before the last are texts of headers, within the bounds. -/
theorem drainHeaders_iff {left total : Nat} {stream rest : Bytes} (within : total ≤ maxHeaderBytes) :
    drainHeaders left total stream = (.ok (),rest) ↔ Drains left total (reads 0x0A maxRequestLine stream) rest := by
  induction left generalizing total stream with
  | zero =>
    refine iff_of_false (by simp [drainHeaders]) ?_
    rintro ⟨front,back,_,_,few,_⟩
    exact absurd few (Nat.not_lt_zero _)
  | succ left ih =>
    rcases eq_or_ne stream [] with rfl | filled
    · have nothing : reads (0x0A : UInt8) maxRequestLine [] = [] := by simp [reads]
      have read : readLine maxRequestLine [] = (some [],[]) := by
        have empty : fromUtf8 [] = some [] := fromUtf8_whole ⟨[],rfl⟩
        rw [readLine,List.take_nil]
        simp [through,empty]
      rw [drainHeaders,read,nothing,drains_none within]
      exact ⟨fun done => (Prod.mk.inj done).2.symm,fun same => by rw [same]; rfl⟩
    · obtain ⟨piece,some,read,split⟩ := readLine_cons filled
      have size : piece.length ≠ 0 := by simpa using some
      rw [drainHeaders,read,split]
      cases blank : lineBreak piece with
      | true =>
        rw [fromUtf8_whole (lineBreak_whole blank),drains_blank within blank,reads_flatten (by decide)]
        simp only [blank,or_true,if_true,Prod.mk.injEq,true_and]
        exact eq_comm
      | false =>
        rw [drains_text blank]
        by_cases whole : WellFormed piece
        · rw [fromUtf8_whole whole]
          simp only [size,false_or,blank,Bool.false_eq_true,if_false,whole,true_and]
          by_cases large : maxHeaderBytes < total + piece.length
          · rw [if_pos large]
            exact iff_of_false (by simp) fun drains => absurd drains.bounded (Nat.not_le.mpr large)
          · rw [if_neg large,ih (Nat.not_lt.mp large)]
        · rw [fromUtf8_broken whole]
          exact iff_of_false (by simp) fun all => whole all.1

/-! ## Lines -/

/-- No read of a header line that is not the last one is a line break, but for the line that is
one, and no read ends inside a character. -/
structure Unbroken (lines : List Bytes) : Prop where
  whole : ∀ line ∈ lines, ∀ piece ∈ pieces maxRequestLine line, WellFormed piece
  apart : ∀ line ∈ lines.dropLast, ∀ piece ∈ (pieces maxRequestLine line).tail, lineBreak piece = false

theorem lineBreak_short {h : Bytes} (blank : lineBreak h = true) : h ≠ [] ∧ h.length < maxRequestLine := by
  rw [lineBreak,Bool.or_eq_true,beq_iff_eq,beq_iff_eq] at blank
  rcases blank with rfl | rfl <;> exact ⟨by simp,by decide⟩

theorem lineBreak_pieces {line : Bytes} (blank : lineBreak line = true) : pieces maxRequestLine line = [line] :=
  pieces_short (by decide) (lineBreak_short blank).1 (lineBreak_short blank).2.le

/-- The first read of a line is a line break only where the line is. -/
theorem lineBreak_take {line : Bytes} (blank : lineBreak (line.take maxRequestLine) = true) : lineBreak line = true := by
  have short := (lineBreak_short blank).2
  rw [List.length_take] at short
  rwa [List.take_of_length_le (by omega)] at blank

/-- The header lines are filled, and the last one is the only line break, or at the end of the stream. -/
theorem block_cases (b : Bytes) : ∃ earlier, (∀ line ∈ earlier, line ≠ [] ∧ lineBreak line = false) ∧
    (block b = (earlier,[]) ∨ ∃ line, lineBreak line = true ∧ (block b).1 = earlier ++ [line]) := by
  induction b using block.induct with
  | case1 => exact ⟨[],by simp,Or.inl (by rw [block,if_pos rfl])⟩
  | case2 b filled line blank =>
    refine ⟨[],by simp,Or.inr ⟨line,blank,?_⟩⟩
    rw [block,if_neg filled]
    simp only [line] at blank ⊢
    rw [if_pos blank,List.nil_append]
  | case3 b filled line rest other ih =>
    obtain ⟨earlier,texts,ends⟩ := ih
    refine ⟨line::earlier,List.forall_mem_cons.mpr ⟨⟨through_filled _ filled,by simpa using other⟩,texts⟩,?_⟩
    have split : block b = (line::(block rest).1,(block rest).2) := by
      rw [block,if_neg filled]
      simp only [line,rest] at other ⊢
      rw [if_neg other]
    rw [split]
    refine ends.imp (fun same => by rw [same]) ?_
    rintro ⟨last,blank,same⟩
    exact ⟨last,blank,by rw [same]; rfl⟩

/-- The reads of a stream begin with those of its header lines. -/
theorem reads_block (b : Bytes) : reads 0x0A maxRequestLine b =
    (block b).1.flatMap (pieces maxRequestLine) ++ reads 0x0A maxRequestLine (block b).2 := by
  induction b using block.induct with
  | case1 => rw [block,if_pos rfl,List.flatMap_nil,List.nil_append]
  | case2 b filled line blank =>
    rw [block,if_neg filled,reads_through (by decide)]
    simp only [line] at blank ⊢
    rw [if_pos blank,List.flatMap_singleton]
  | case3 b filled line rest other ih =>
    rw [block,if_neg filled,reads_through (by decide)]
    simp only [line,rest] at other ih ⊢
    rw [if_neg other,List.flatMap_cons,List.append_assoc,← ih]

theorem pieces_lines (lines : List Bytes) : (lines.flatMap (pieces maxRequestLine)).flatten = lines.flatten := by
  induction lines with
  | nil => rfl
  | cons line rest ih =>
    rw [List.flatMap_cons,List.flatten_append,ih,pieces_flatten (by decide),List.flatten_cons]

/-- What the reads of all lines are, but the last read. -/
theorem unbroken_iff {lines : List Bytes} (filled : ∀ line ∈ lines, line ≠ []) (texts : ∀ line ∈ lines.dropLast, lineBreak line = false) :
    Unbroken lines ↔ (∀ piece ∈ lines.flatMap (pieces maxRequestLine), WellFormed piece) ∧
      ∀ piece ∈ (lines.flatMap (pieces maxRequestLine)).dropLast, lineBreak piece = false := by
  have whole : (∀ line ∈ lines, ∀ piece ∈ pieces maxRequestLine line, WellFormed piece) ↔
      ∀ piece ∈ lines.flatMap (pieces maxRequestLine), WellFormed piece := by
    simp only [List.mem_flatMap]
    exact ⟨fun all piece ⟨line,own,member⟩ => all line own piece member,fun all line own piece member => all piece ⟨line,own,member⟩⟩
  have apart : (∀ line ∈ lines.dropLast, ∀ piece ∈ (pieces maxRequestLine line).tail, lineBreak piece = false) ↔
      ∀ piece ∈ (lines.flatMap (pieces maxRequestLine)).dropLast, lineBreak piece = false := by
    rcases List.eq_nil_or_concat lines with rfl | ⟨earlier,last,rfl⟩
    · simp
    rw [List.concat_eq_append] at *
    have some : pieces maxRequestLine last ≠ [] := by
      rw [pieces_cons (by decide) (filled last (by simp))]
      exact List.cons_ne_nil _ _
    have long : ∀ piece ∈ (pieces maxRequestLine last).dropLast, lineBreak piece = false := by
      intro piece member
      by_contra blank
      have short := (lineBreak_short (by simpa using blank)).2
      exact absurd (pieces_dropLast (by decide) member) short.ne
    rw [List.dropLast_concat] at texts ⊢
    rw [List.flatMap_append,List.flatMap_singleton,List.dropLast_append_of_ne_nil some]
    simp only [List.mem_append,List.mem_flatMap]
    constructor
    · rintro all piece (⟨line,own,member⟩ | member)
      · rw [pieces_cons (by decide) (filled line (by simp [own]))] at member
        have later := all line own piece
        rw [pieces_cons (by decide) (filled line (by simp [own])),List.tail_cons] at later
        rcases List.mem_cons.mp member with rfl | inside
        · by_contra blank
          have broken := lineBreak_take (by simpa using blank)
          rw [texts line own] at broken
          cases broken
        · exact later inside
      · exact long piece member
    · exact fun all line own piece member => all piece (Or.inl ⟨line,own,List.mem_of_mem_tail member⟩)
  exact ⟨fun unbroken => ⟨whole.mp unbroken.whole,apart.mp unbroken.apart⟩,fun all => ⟨whole.mpr all.1,apart.mpr all.2⟩⟩

section Drained
variable {b : Bytes}

theorem kept_concat {front : List Bytes} {piece : Bytes} (whole : ∀ part ∈ front ++ [piece], WellFormed part)
    (apart : ∀ part ∈ (front ++ [piece]).dropLast, lineBreak part = false) : Kept front ∧ WellFormed piece := by
  rw [List.dropLast_concat] at apart
  exact ⟨fun part own => ⟨whole part (List.mem_append_left _ own),apart part own⟩,whole piece (by simp)⟩

theorem ends_unbroken {front back : List Bytes} (same : reads 0x0A maxRequestLine b = front ++ back) (kept : Kept front)
    (ends : Ends back (block b).2) : (∀ piece ∈ (block b).1.flatMap (pieces maxRequestLine), WellFormed piece) ∧
      ∀ piece ∈ ((block b).1.flatMap (pieces maxRequestLine)).dropLast, lineBreak piece = false := by
  have split := reads_block b
  have left := @reads_flatten _ _ (0x0A : UInt8) maxRequestLine (by decide) (block b).2
  generalize (block b).2 = rest at split left ends
  cases ends with
  | stream =>
    have none : reads (0x0A : UInt8) maxRequestLine [] = [] := by simp [reads]
    rw [none,List.append_nil] at split
    rw [List.append_nil] at same
    rw [← split,same]
    exact ⟨fun piece own => (kept piece own).1,fun piece own => (kept piece (List.mem_of_mem_dropLast own)).2⟩
  | @blank piece later broken =>
    have parts : (front ++ [piece]) ++ later = (block b).1.flatMap (pieces maxRequestLine) ++
        reads 0x0A maxRequestLine later.flatten := by rw [← split,same,List.append_assoc,List.singleton_append]
    have own : ∀ part ∈ (front ++ [piece]) ++ later, part ≠ [] := by
      rw [List.append_assoc,List.singleton_append,← same]
      exact fun part member => reads_filled (by decide) member
    rw [← parts_unique parts own (by rw [left]),List.dropLast_concat]
    refine ⟨fun part member => ?_,fun part member => (kept part member).2⟩
    rcases List.mem_append.mp member with inside | final
    · exact (kept part inside).1
    · rw [List.mem_singleton.mp final]
      exact lineBreak_whole broken

/-- The headers that end with the stream: the last read may be a line break, and is the last one then. -/
theorem stream_ends {earlier : List Bytes} (texts : ∀ line ∈ earlier, lineBreak line = false)
    (few : headerReads earlier ≤ maxHeaders) (bytes : headerBytes earlier ≤ maxHeaderBytes)
    (whole : ∀ piece ∈ earlier.flatMap (pieces maxRequestLine), WellFormed piece)
    (apart : ∀ piece ∈ (earlier.flatMap (pieces maxRequestLine)).dropLast, lineBreak piece = false) :
    ∃ front back, earlier.flatMap (pieces maxRequestLine) = front ++ back ∧ Kept front ∧ front.length < maxHeaders ∧
      0 + front.flatten.length ≤ maxHeaderBytes ∧ Ends back [] := by
  have plain : earlier.any lineBreak = false := List.any_eq_false.mpr fun line own => by simp [texts line own]
  have all : earlier.filter (fun line => !lineBreak line) = earlier :=
    List.filter_eq_self.mpr fun line own => by simp [texts line own]
  have sizes := congrArg List.length (pieces_lines earlier)
  rw [headerReads,plain,if_neg (by decide)] at few
  rw [headerBytes,all,← sizes] at bytes
  generalize earlier.flatMap (pieces maxRequestLine) = parts at few bytes whole apart
  rcases List.eq_nil_or_concat parts with rfl | ⟨front,piece,rfl⟩
  · exact ⟨[],[],rfl,.nil,by decide,by simp,.stream⟩
  rw [List.concat_eq_append] at *
  obtain ⟨kept,last⟩ := kept_concat whole apart
  rw [List.length_append,List.length_singleton] at few
  cases broken : lineBreak piece with
  | true =>
    rw [List.flatten_append,List.length_append] at bytes
    exact ⟨front,[piece],rfl,kept,by omega,by omega,.blank [] broken⟩
  | false =>
    refine ⟨front ++ [piece],[],(List.append_nil _).symm,?_,by simp; omega,by simpa using bytes,.stream⟩
    intro part own
    rcases List.mem_append.mp own with inside | final
    · exact kept part inside
    · rw [List.mem_singleton.mp final]
      exact ⟨last,broken⟩

/-- The headers that end with a blank line: it is the last read. -/
theorem blank_ends {earlier : List Bytes} {last rest : Bytes} (texts : ∀ line ∈ earlier, lineBreak line = false)
    (blank : lineBreak last = true) (few : headerReads (earlier ++ [last]) ≤ maxHeaders)
    (bytes : headerBytes (earlier ++ [last]) ≤ maxHeaderBytes)
    (whole : ∀ piece ∈ (earlier ++ [last]).flatMap (pieces maxRequestLine), WellFormed piece)
    (apart : ∀ piece ∈ ((earlier ++ [last]).flatMap (pieces maxRequestLine)).dropLast, lineBreak piece = false) :
    ∃ front back, (earlier ++ [last]).flatMap (pieces maxRequestLine) ++ reads 0x0A maxRequestLine rest = front ++ back ∧
      Kept front ∧ front.length < maxHeaders ∧ 0 + front.flatten.length ≤ maxHeaderBytes ∧ Ends back rest := by
  have some : (earlier ++ [last]).any lineBreak = true := by simp [blank]
  have all : (earlier ++ [last]).filter (fun line => !lineBreak line) = earlier := by
    rw [List.filter_append,List.filter_eq_self.mpr fun line own => by simp [texts line own]]
    simp [blank]
  have sizes := congrArg List.length (pieces_lines earlier)
  have parts : (earlier ++ [last]).flatMap (pieces maxRequestLine) = earlier.flatMap (pieces maxRequestLine) ++ [last] := by
    rw [List.flatMap_append,List.flatMap_singleton,lineBreak_pieces blank]
  rw [headerReads,some,if_pos rfl,parts,List.length_append,List.length_singleton] at few
  rw [headerBytes,all,← sizes] at bytes
  rw [parts] at whole apart
  have ended := Ends.blank (reads 0x0A maxRequestLine rest) blank
  rw [reads_flatten (by decide)] at ended
  exact ⟨earlier.flatMap (pieces maxRequestLine),last::reads 0x0A maxRequestLine rest,by rw [parts]; simp,
    (kept_concat whole apart).1,by omega,by omega,ended⟩

/-- Within the bounds the loop leaves what comes after the header lines exactly where no read
breaks them. -/
theorem drained_iff (few : headerReads (block b).1 ≤ maxHeaders) (bytes : headerBytes (block b).1 ≤ maxHeaderBytes) :
    drainHeaders maxHeaders 0 b = (.ok (),(block b).2) ↔ Unbroken (block b).1 := by
  obtain ⟨earlier,texts,ends⟩ := block_cases b
  have plain : ∀ line ∈ earlier, lineBreak line = false := fun line own => (texts line own).2
  have filled : ∀ line ∈ (block b).1, line ≠ [] := by
    rcases ends with same | ⟨last,blank,same⟩
    · rw [same]
      exact fun line own => (texts line own).1
    · rw [same]
      intro line own
      rcases List.mem_append.mp own with inside | final
      · exact (texts line inside).1
      · rw [List.mem_singleton.mp final]
        exact (lineBreak_short blank).1
  have before : ∀ line ∈ (block b).1.dropLast, lineBreak line = false := by
    rcases ends with same | ⟨last,blank,same⟩
    · rw [same]
      exact fun line own => plain line (List.mem_of_mem_dropLast own)
    · rw [same,List.dropLast_concat]
      exact plain
  rw [unbroken_iff filled before,drainHeaders_iff (Nat.zero_le _)]
  constructor
  · rintro ⟨front,back,same,kept,_,_,left⟩
    exact ends_unbroken same kept left
  · rintro ⟨whole,apart⟩
    rw [reads_block]
    rcases ends with same | ⟨last,blank,same⟩
    · have none : reads (0x0A : UInt8) maxRequestLine [] = [] := by simp [reads]
      rw [same] at few bytes whole apart ⊢
      rw [none,List.append_nil]
      exact stream_ends plain few bytes whole apart
    · rw [same] at few bytes whole apart ⊢
      exact blank_ends plain blank few bytes whole apart

end Drained

/-! ## The request -/

section Request
variable {stream : Bytes}

/-- What comes after the request line. -/
def afterLine (stream : Bytes) : Bytes := stream.drop (through 0x0A stream).length

variable (complete : (through 0x0A stream).getLast? = some 0x0A)
include complete

theorem readRequest_line (utf8 : WellFormed stream) (get : method (decode (through 0x0A stream)) = "GET".toList)
    (short : (through 0x0A stream).length ≤ maxRequestLine) : readRequest stream =
      ((drainHeaders maxHeaders 0 (afterLine stream)).1.map fun _ => requested (decode (through 0x0A stream)),
        (drainHeaders maxHeaders 0 (afterLine stream)).2) := by
  obtain ⟨a,rest,_,split,line⟩ := through_ends complete
  have whole : WellFormed (through 0x0A stream) := by
    rw [split] at utf8
    rw [line]
    exact (wellFormed_before (by decide) utf8).2
  have read : readLine maxRequestLine stream = (some (through 0x0A stream),afterLine stream) := by
    rw [readLine,through_take,List.take_of_length_le short,fromUtf8_whole whole]
    rfl
  have size : (through 0x0A stream).length ≠ 0 := by
    rw [line]
    simp
  rw [readRequest,read]
  simp only [size,complete,get,ne_eq,not_true_eq_false,and_false,if_false]

theorem readRequest_long (long : maxRequestLine < (through 0x0A stream).length) (request : Request) (rest : Bytes) :
    readRequest stream ≠ (.ok request,rest) := by
  obtain ⟨a,rest',free,_,line⟩ := through_ends complete
  have part : (through 0x0A stream).take maxRequestLine = a.take maxRequestLine := by
    rw [line,List.length_append,List.length_singleton] at long
    rw [line,List.take_append_of_le_length (by omega)]
  have size : (a.take maxRequestLine).length = maxRequestLine := by
    rw [← part,List.length_take]
    omega
  have unended : (a.take maxRequestLine).getLast? ≠ some 0x0A := fun ends =>
    free (List.mem_of_mem_take (List.mem_of_getLast? ends))
  have some : ¬ maxRequestLine = 0 := by decide
  rw [readRequest,readLine,through_take,part]
  cases read : fromUtf8 (a.take maxRequestLine) with
  | none => simp
  | some h =>
    have same : h = a.take maxRequestLine := by
      rw [fromUtf8] at read
      split_ifs at read
      exact (Option.some.inj read).symm
    simp [same,size,unended,some]

/-- Of a text with a complete line that asks with GET, and headers within the bounds, exactly the
line and the headers are read exactly where the line is within its bound and no read breaks the
headers. -/
theorem consumed_iff (utf8 : WellFormed stream) (get : method (decode (through 0x0A stream)) = "GET".toList)
    (few : headerReads (block (afterLine stream)).1 ≤ maxHeaders)
    (bytes : headerBytes (block (afterLine stream)).1 ≤ maxHeaderBytes) :
    (∃ request, readRequest stream = (.ok request,(block (afterLine stream)).2)) ↔
      (through 0x0A stream).length ≤ maxRequestLine ∧ Unbroken (block (afterLine stream)).1 := by
  by_cases short : (through 0x0A stream).length ≤ maxRequestLine
  · rw [readRequest_line complete utf8 get short,← drained_iff few bytes]
    simp only [short,true_and,Prod.mk.injEq]
    cases done : drainHeaders maxHeaders 0 (afterLine stream) with
    | mk result rest =>
      cases result with
      | error response => simp [Except.map]
      | ok _ => simp [Except.map]
  · refine iff_of_false ?_ fun all => short all.1
    rintro ⟨request,read⟩
    exact readRequest_long complete (by omega) request _ read

end Request

theorem block_blank {line : Bytes} (blank : lineBreak line = true) (own : through 0x0A (line ++ []) = line) :
    block line = ([line],[]) := by
  rw [List.append_nil] at own
  rw [block,if_neg (lineBreak_short blank).1]
  simp only [own,blank,if_true,List.drop_length]

theorem block_line {line : Bytes} (text : lineBreak line = false) (rest : Bytes) (filled : line ≠ [])
    (own : through 0x0A (line ++ rest) = line) : block (line ++ rest) = (line::(block rest).1,(block rest).2) := by
  rw [block,if_neg (by simp [filled])]
  simp only [own,text,Bool.false_eq_true,if_false,List.drop_left]

def getLine : Bytes := encode "GET / HTTP/1.1\r\n".toList

theorem getLine_line (rest : Bytes) : through 0x0A (getLine ++ rest) = getLine := by
  have ends : getLine = encode "GET / HTTP/1.1\r".toList ++ [0x0A] := by decide
  rw [ends,List.append_assoc,List.singleton_append]
  exact through_line (by decide) rest

theorem getLine_get : method (decode getLine) = "GET".toList := by
  rw [getLine,decode_encode]
  decide +kernel

theorem getLine_after (rest : Bytes) : afterLine (getLine ++ rest) = rest := by
  rw [afterLine,getLine_line]
  exact List.drop_left

theorem getLine_complete (rest : Bytes) : (through 0x0A (getLine ++ rest)).getLast? = some 0x0A := by
  rw [getLine_line]
  decide

theorem shortRequest_consumed : ∃ request, readRequest (getLine ++ (encode "Host: a\r\n".toList ++ [0x0D,0x0A])) = (.ok request,[]) := by
  have header : block (encode "Host: a\r\n".toList ++ [0x0D,0x0A]) = ([encode "Host: a\r\n".toList,[0x0D,0x0A]],[]) := by
    rw [block_line (by decide) _ (by decide) (by decide),block_blank rfl (by decide)]
  have first : pieces maxRequestLine (encode "Host: a\r\n".toList) = [encode "Host: a\r\n".toList] :=
    pieces_short (by decide) (by decide) (by decide)
  have last : pieces maxRequestLine ([0x0D,0x0A] : Bytes) = [[0x0D,0x0A]] := lineBreak_pieces rfl
  have unbroken : Unbroken [encode "Host: a\r\n".toList,[0x0D,0x0A]] := by
    refine ⟨?_,?_⟩
    · simp only [List.forall_mem_cons,first,last]
      exact ⟨⟨⟨_,rfl⟩,by simp⟩,⟨⟨"\r\n".toList,by decide⟩,by simp⟩,by simp⟩
    · simp only [List.dropLast_cons_cons,List.dropLast_singleton,List.forall_mem_cons,first,List.tail_cons]
      simp
  have text : WellFormed (getLine ++ (encode "Host: a\r\n".toList ++ [0x0D,0x0A])) :=
    ⟨"GET / HTTP/1.1\r\nHost: a\r\n\r\n".toList,by decide⟩
  have consumed := consumed_iff (getLine_complete (encode "Host: a\r\n".toList ++ [0x0D,0x0A])) text
  rw [getLine_line,getLine_after,header] at consumed
  refine (consumed getLine_get ?_ (by decide)).mpr ⟨by decide,unbroken⟩
  rw [headerReads,List.flatMap_cons,List.flatMap_singleton,first,last]
  decide

/-- A header line whose end is read alone, and the blank line. -/
def longHeader : Bytes := List.replicate maxRequestLine 0x61 ++ [0x0A]

def longRequest : Bytes := getLine ++ (longHeader ++ [0x0D,0x0A])

theorem longHeader_text : lineBreak longHeader = false := by
  by_contra blank
  have short := (lineBreak_short (by simpa using blank)).2
  simp [longHeader] at short

theorem longHeader_block : block (longHeader ++ [0x0D,0x0A]) = ([longHeader,[0x0D,0x0A]],[]) := by
  have own : through 0x0A (longHeader ++ [0x0D,0x0A]) = longHeader := by
    rw [longHeader,List.append_assoc,List.singleton_append]
    exact through_line (by simp [List.mem_replicate]) _
  rw [block_line longHeader_text _ (by simp [longHeader]) own,block_blank rfl (by decide)]

theorem longHeader_pieces : pieces maxRequestLine longHeader = [List.replicate maxRequestLine 0x61,[0x0A]] := by
  have size : (List.replicate maxRequestLine (0x61 : UInt8)).length = maxRequestLine := List.length_replicate
  rw [pieces_cons (by decide) (by simp [longHeader]),longHeader,List.take_left' size,List.drop_left' size,
    pieces_short (by decide) (by simp) (by decide)]

theorem longRequest_text : WellFormed longRequest := by
  have letters (n : Nat) : encode (List.replicate n 'a') = List.replicate n 0x61 := by
    induction n with
    | zero => rfl
    | succ n ih =>
      rw [List.replicate_succ,List.replicate_succ,← ih]
      rfl
  refine ⟨"GET / HTTP/1.1\r\n".toList ++ (List.replicate maxRequestLine 'a' ++ "\n\r\n".toList),?_⟩
  rw [encode_append,encode_append,letters,longRequest,longHeader,List.append_assoc]
  rfl

/-- The blank line after a header whose line break is read alone is left in the stream. -/
theorem longRequest_left : ¬ ∀ stream : Bytes, WellFormed stream → (through 0x0A stream).getLast? = some 0x0A →
    method (decode (through 0x0A stream)) = "GET".toList → headerReads (block (afterLine stream)).1 ≤ maxHeaders →
    headerBytes (block (afterLine stream)).1 ≤ maxHeaderBytes →
    ∃ request, readRequest stream = (.ok request,(block (afterLine stream)).2) := by
  intro claim
  have line : through 0x0A longRequest = getLine := getLine_line _
  have after : afterLine longRequest = longHeader ++ [0x0D,0x0A] := getLine_after _
  have complete : (through 0x0A longRequest).getLast? = some 0x0A := getLine_complete _
  have get : method (decode (through 0x0A longRequest)) = "GET".toList := by rw [line,getLine_get]
  have few : headerReads (block (afterLine longRequest)).1 ≤ maxHeaders := by
    have last : pieces maxRequestLine ([0x0D,0x0A] : Bytes) = [[0x0D,0x0A]] := lineBreak_pieces rfl
    have some : [longHeader,[0x0D,0x0A]].any lineBreak = true := List.any_eq_true.mpr ⟨[0x0D,0x0A],by simp,rfl⟩
    rw [after,longHeader_block,headerReads,List.flatMap_cons,List.flatMap_singleton,longHeader_pieces,last,some]
    decide
  have bytes : headerBytes (block (afterLine longRequest)).1 ≤ maxHeaderBytes := by
    have texts : [longHeader,[0x0D,0x0A]].filter (fun line => !lineBreak line) = [longHeader] := by
      rw [List.filter_cons_of_pos (by simp [longHeader_text])]
      rfl
    rw [after,longHeader_block,headerBytes,texts,List.flatten_singleton,longHeader,List.length_append,List.length_replicate]
    decide
  obtain ⟨request,read⟩ := claim longRequest longRequest_text complete get few bytes
  rw [readRequest_line complete longRequest_text get (by rw [line]; decide)] at read
  have drained : drainHeaders maxHeaders 0 (afterLine longRequest) = (.ok (),(block (afterLine longRequest)).2) := by
    obtain ⟨done,left⟩ := Prod.mk.inj read
    cases result : drainHeaders maxHeaders 0 (afterLine longRequest) with
    | mk outcome rest =>
      rw [result] at done left
      cases outcome with
      | error response => simp [Except.map] at done
      | ok _ => rw [← left]
  have unbroken := (drained_iff few bytes).mp drained
  rw [after,longHeader_block] at unbroken
  have broken := unbroken.apart longHeader (by simp) [0x0A] (by rw [longHeader_pieces]; simp)
  exact absurd broken (by decide)

end FipsShield.Ui
