import Mathlib.Data.List.Basic

/-! Byte buffers and ECMAScript strings, and the two conversions between them:
UTF-8 decoding that replaces malformed sequences, and UTF-8 encoding. -/
namespace FipsShield

abbrev Bytes := List UInt8

/-- A string value is its sequence of UTF-16 code units. -/
abbrev Str := List UInt16

namespace Buffer

def byteAt (b : Bytes) (i : Nat) : UInt8 := b.getD i 0

def readUInt16BE (b : Bytes) (i : Nat) : Nat := (byteAt b i).toNat * 256 + (byteAt b (i + 1)).toNat

def readUInt32BE (b : Bytes) (i : Nat) : Nat := readUInt16BE b i * 65536 + readUInt16BE b (i + 2)

/-- `buf.slice(first, last)`. -/
def slice (b : Bytes) (first last : Nat) : Bytes := (b.take last).drop first

theorem byteAt_append (a b : Bytes) (i : Nat) (inside : i < a.length) :
    byteAt (a ++ b) i = byteAt a i := by
  simp [byteAt,List.getElem?_append_left inside]

theorem readUInt16BE_append (a b : Bytes) (i : Nat) (inside : i + 1 < a.length) :
    readUInt16BE (a ++ b) i = readUInt16BE a i := by
  rw [readUInt16BE,byteAt_append a b i (by omega),byteAt_append a b _ inside,readUInt16BE]

theorem readUInt32BE_append (a b : Bytes) (i : Nat) (inside : i + 3 < a.length) :
    readUInt32BE (a ++ b) i = readUInt32BE a i := by
  rw [readUInt32BE,readUInt16BE_append a b i (by omega),readUInt16BE_append a b _ inside,
    readUInt32BE]

theorem slice_append (a b : Bytes) (first last : Nat) (inside : last ≤ a.length) :
    slice (a ++ b) first last = slice a first last := by
  rw [slice,List.take_append_of_le_length inside,slice]

theorem slice_middle (a b c : Bytes) : slice (a ++ (b ++ c)) a.length (a.length + b.length) = b := by
  rw [slice,List.take_length_add_append,List.drop_left,List.take_left]

end Buffer

namespace Text

def utf16 (c : Char) : Str :=
  if c.toNat < 0x10000 then [UInt16.ofNat c.toNat]
  else [UInt16.ofNat (0xD800 + (c.toNat - 0x10000) / 0x400),
    UInt16.ofNat (0xDC00 + (c.toNat - 0x10000) % 0x400)]

def str (s : String) : Str := s.toList.flatMap utf16

def replacement : Char := '\uFFFD'

/-- The scalar values of a string, unpaired surrogates replaced. -/
def scalars : Str → List Char
  | [] => []
  | u::rest =>
    if 0xD800 ≤ u.toNat ∧ u.toNat < 0xDC00 then
      match rest with
      | v::tail =>
        if 0xDC00 ≤ v.toNat ∧ v.toNat < 0xE000 then
          Char.ofNat (0x10000 + (u.toNat - 0xD800) * 0x400 + (v.toNat - 0xDC00)) :: scalars tail
        else replacement :: scalars (v::tail)
      | [] => [replacement]
    else if 0xDC00 ≤ u.toNat ∧ u.toNat < 0xE000 then replacement :: scalars rest
    else Char.ofNat u.toNat :: scalars rest

/-- The character a buffer starts with, if its first bytes encode one. -/
def firstChar (b : Bytes) : Option Char := (b.take 4).toByteArray.utf8DecodeChar? 0

def continues (b : UInt8) : Bool := 0x80 ≤ b && b ≤ 0xBF

/-- Whether a lead byte of three or four bytes admits the byte after it. -/
def admits (lead second : UInt8) : Bool :=
  if lead = 0xE0 then 0xA0 ≤ second && second ≤ 0xBF
  else if lead = 0xED then 0x80 ≤ second && second ≤ 0x9F
  else if lead = 0xF0 then 0x90 ≤ second && second ≤ 0xBF
  else if lead = 0xF4 then 0x80 ≤ second && second ≤ 0x8F
  else 0xE0 ≤ lead && lead < 0xF4 && continues second

/-- How many bytes of a malformed start one replacement character stands for:
the longest start of a character that they are. -/
def malformed : Bytes → Nat
  | lead::second::rest =>
    if admits lead second then
      match rest with
      | third::_ => if 0xF0 ≤ lead && continues third then 3 else 2
      | [] => 2
    else 1
  | _ => 1

theorem malformed_pos (b : Bytes) : 0 < malformed b := by
  unfold malformed
  split
  · split
    · split
      · split <;> omega
      · omega
    · omega
  · omega

def decode (b : Bytes) : List Char :=
  match b with
  | [] => []
  | lead::rest =>
    match firstChar (lead::rest) with
    | some c => c :: decode ((lead::rest).drop c.utf8Size)
    | none => replacement :: decode ((lead::rest).drop (malformed (lead::rest)))
termination_by b.length
decreasing_by
  · have size := Char.utf8Size_pos c
    simp only [List.length_drop,List.length_cons]
    omega
  · have size := malformed_pos (lead::rest)
    simp only [List.length_drop,List.length_cons]
    omega

def encode (cs : List Char) : Bytes := cs.flatMap String.utf8EncodeChar

/-- `buf.toString()`. -/
def toString (b : Bytes) : Str := (decode b).flatMap utf16

/-- `Buffer.from(s)`. -/
def fromString (s : Str) : Bytes := encode (scalars s)

theorem firstChar_iff (b : Bytes) (c : Char) :
    firstChar b = some c ↔ ∃ rest, b = String.utf8EncodeChar c ++ rest := by
  have size : (String.utf8EncodeChar c).length ≤ 4 := by
    simpa using Char.utf8Size_le_four c
  constructor
  · intro found
    obtain ⟨tail,same⟩ := ByteArray.exists_of_utf8DecodeChar?_eq_some found
    have start : b.take 4 = String.utf8EncodeChar c ++ tail.data.toList := by
      have lists := congrArg (fun bytes : ByteArray => bytes.data.toList) same
      simpa using lists
    exact ⟨tail.data.toList ++ b.drop 4,by
      rw [← List.append_assoc,← start,List.take_append_drop]⟩
  · rintro ⟨rest,rfl⟩
    unfold firstChar
    rw [List.take_append,List.take_of_length_le size,List.toByteArray_append]
    exact ByteArray.utf8DecodeChar?_utf8EncodeChar_append

@[simp] theorem decode_nil : decode [] = [] := by rw [decode]

theorem decode_char (c : Char) (rest : Bytes) :
    decode (String.utf8EncodeChar c ++ rest) = c :: decode rest := by
  have found : firstChar (String.utf8EncodeChar c ++ rest) = some c :=
    (firstChar_iff _ c).mpr ⟨rest,rfl⟩
  have size : (String.utf8EncodeChar c).length = c.utf8Size := String.length_utf8EncodeChar c
  have positive := Char.utf8Size_pos c
  cases shape : String.utf8EncodeChar c ++ rest with
  | nil =>
    have empty := congrArg List.length shape
    simp only [List.length_append,List.length_nil,size] at empty
    omega
  | cons lead tail =>
    rw [decode]
    simp only [← shape,found,← size,List.drop_left]

theorem decode_encode (cs : List Char) : decode (encode cs) = cs := by
  induction cs with
  | nil => exact decode_nil
  | cons c rest ih => simpa only [encode,List.flatMap_cons,decode_char,List.cons.injEq,true_and] using ih

theorem ofNat_scalar {n : Nat} (valid : n < 0xD800 ∨ 0xDFFF < n ∧ n < 0x110000) : (Char.ofNat n).val.toNat = n := by
  have legal : n.isValidChar := valid
  rw [Char.ofNat,dif_pos legal]
  rfl

theorem ascii_toNat (a : UInt8) (ascii : a < 0x80) : (Char.ofNat a.toNat).toNat = a.toNat := by
  have small : a.toNat < 0x80 := UInt8.lt_iff_toNat_lt.mp ascii
  exact ofNat_scalar (Or.inl (by omega))

theorem encode_ascii (a : UInt8) (ascii : a < 0x80) :
    String.utf8EncodeChar (Char.ofNat a.toNat) = [a] := by
  have value := ascii_toNat a ascii
  have small : a.toNat < 0x80 := UInt8.lt_iff_toNat_lt.mp ascii
  have le : (Char.ofNat a.toNat).val.toNat ≤ 0x7f := by
    change (Char.ofNat a.toNat).toNat ≤ 0x7f
    omega
  simp only [String.utf8EncodeChar,le,if_true]
  change [UInt8.ofNat (Char.ofNat a.toNat).toNat] = [a]
  rw [value,UInt8.ofNat_toNat]

theorem decode_ascii (a : UInt8) (ascii : a < 0x80) (rest : Bytes) :
    decode (a::rest) = Char.ofNat a.toNat :: decode rest := by
  have split := decode_char (Char.ofNat a.toNat) rest
  rwa [encode_ascii a ascii] at split

theorem ascii_isFirst (a : UInt8) (ascii : a < 0x80) : a.IsUTF8FirstByte := by
  have small : a.toNat < 0x80 := UInt8.lt_iff_toNat_lt.mp ascii
  have clear : ∀ n < 0x80, n &&& 0x80 = 0 := by decide
  exact Or.inl (UInt8.toNat_inj.mp (by simpa using clear a.toNat small))

/-- A character with an ASCII byte among its bytes is that byte alone. -/
theorem ascii_of_mem (c : Char) (a : UInt8) (ascii : a < 0x80)
    (member : a ∈ String.utf8EncodeChar c) : c = Char.ofNat a.toNat := by
  obtain ⟨i,bound,found⟩ := List.mem_iff_getElem.mp member
  have first : ((String.utf8EncodeChar c)[i]).IsUTF8FirstByte := found ▸ ascii_isFirst a ascii
  have zero : i = 0 := UInt8.isUTF8FirstByte_getElem_utf8EncodeChar.mp first
  subst zero
  cases shape : String.utf8EncodeChar c with
  | nil => simp [shape] at bound
  | cons lead tail =>
    have same : lead = a := by simpa [shape] using found
    subst same
    have own := (firstChar_iff (lead::tail) c).mpr ⟨[],by simp [shape]⟩
    have ascii := (firstChar_iff (lead::tail) (Char.ofNat lead.toNat)).mpr
      ⟨tail,by simp [encode_ascii lead ascii]⟩
    exact Option.some.inj (own.symm.trans ascii)

theorem not_admits_ascii (lead a : UInt8) (ascii : a < 0x80) : admits lead a = false := by
  have small : a.toNat < 0x80 := UInt8.lt_iff_toNat_lt.mp ascii
  simp only [admits,continues]
  split_ifs <;> simp [UInt8.le_iff_toNat_le] <;> omega

theorem not_continues_ascii (a : UInt8) (ascii : a < 0x80) : continues a = false := by
  have small : a.toNat < 0x80 := UInt8.lt_iff_toNat_lt.mp ascii
  simp [continues,UInt8.le_iff_toNat_le]
  omega

theorem malformed_append_ascii (lead a : UInt8) (ascii : a < 0x80) (rest tail : Bytes) :
    malformed (lead::rest ++ a::tail) = malformed (lead::rest) := by
  match rest with
  | [] => simp [malformed,not_admits_ascii lead a ascii]
  | [second] => simp [malformed,not_continues_ascii a ascii]
  | second::third::more => simp [malformed]

theorem malformed_le (lead : UInt8) (rest : Bytes) :
    malformed (lead::rest) ≤ (lead::rest).length := by
  match rest with
  | [] => simp [malformed]
  | [second] => simp only [malformed]; split <;> simp
  | second::third::more =>
    simp only [malformed,List.length_cons]
    split
    · split <;> omega
    · omega

theorem firstChar_append_ascii (lead a : UInt8) (ascii : a < 0x80) (rest tail : Bytes) :
    firstChar (lead::rest ++ a::tail) = firstChar (lead::rest) := by
  apply Option.ext
  intro c
  rw [firstChar_iff,firstChar_iff]
  constructor
  · rintro ⟨after,same⟩
    rcases List.append_eq_append_iff.mp same with ⟨more,inside,_⟩ | ⟨more,inside,_⟩
    · cases more with
      | nil => exact ⟨[],by simpa using inside.symm⟩
      | cons b more =>
        -- The character would reach over the ASCII byte, which only ever stands alone.
        have first : b = a := by simp_all
        subst first
        have alone := ascii_of_mem c b ascii (by simp [inside])
        rw [alone,encode_ascii b ascii] at inside
        simp at inside
    · exact ⟨more,inside⟩
  · rintro ⟨after,same⟩
    exact ⟨after ++ a::tail,by simp [same]⟩

/-- Decoding splits at every ASCII byte. -/
theorem decode_append_ascii (a : UInt8) (ascii : a < 0x80) (before tail : Bytes) :
    decode (before ++ a::tail) = decode before ++ decode (a::tail) := by
  induction size : before.length using Nat.strongRecOn generalizing before with
  | ind n ih =>
    cases before with
    | nil => simp
    | cons lead rest =>
      have step (k : Nat) (inside : k ≤ (lead::rest).length) (positive : 0 < k) :
          decode ((lead::rest ++ a::tail).drop k) =
            decode ((lead::rest).drop k) ++ decode (a::tail) := by
        rw [List.drop_append_of_le_length inside]
        exact ih _ (by simp only [← size,List.length_drop,List.length_cons]; omega) _ rfl
      have whole : lead::rest ++ a::tail = lead::(rest ++ a::tail) := rfl
      rw [whole,decode,← whole,firstChar_append_ascii lead a ascii,
        malformed_append_ascii lead a ascii,decode]
      cases found : firstChar (lead::rest) with
      | none => exact congrArg (List.cons replacement) (step _ (malformed_le lead rest) (malformed_pos _))
      | some c =>
        obtain ⟨after,same⟩ := (firstChar_iff _ c).mp found
        have inside : c.utf8Size ≤ (lead::rest).length := by
          rw [same,List.length_append,String.length_utf8EncodeChar]
          omega
        exact congrArg (List.cons c) (step _ inside (Char.utf8Size_pos c))

theorem encode_append (first second : List Char) :
    encode (first ++ second) = encode first ++ encode second := List.flatMap_append

/-- The ASCII bytes of a buffer are those of its decoding, encoded again. -/
theorem ascii_mem_reencode (a : UInt8) (ascii : a < 0x80) (b : Bytes) :
    a ∈ encode (decode b) ↔ a ∈ b := by
  constructor
  · intro member
    induction size : b.length using Nat.strongRecOn generalizing b with
    | ind n ih =>
      cases b with
      | nil => simp [encode] at member
      | cons lead rest =>
        have later (k : Nat) (positive : 0 < k)
            (inside : a ∈ encode (decode ((lead::rest).drop k))) : a ∈ lead::rest := by
          have shorter : ((lead::rest).drop k).length < n := by
            simp only [← size,List.length_drop,List.length_cons]
            omega
          exact List.mem_of_mem_drop (ih _ shorter _ inside rfl)
        rw [decode] at member
        cases found : firstChar (lead::rest) with
        | none =>
          simp only [found,encode,List.flatMap_cons,List.mem_append] at member
          rcases member with now | after
          · have bytes : String.utf8EncodeChar replacement = [0xEF,0xBF,0xBD] := by decide
            rw [bytes] at now
            exfalso
            revert ascii
            simp only [List.mem_cons,List.not_mem_nil,or_false] at now
            rcases now with rfl | rfl | rfl <;> decide
          · exact later _ (malformed_pos _) after
        | some c =>
          simp only [found,encode,List.flatMap_cons,List.mem_append] at member
          obtain ⟨tail,same⟩ := (firstChar_iff _ c).mp found
          rcases member with now | after
          · rw [same]
            exact List.mem_append_left _ now
          · exact later _ (Char.utf8Size_pos c) after
  · intro member
    obtain ⟨before,tail,rfl⟩ := List.append_of_mem member
    rw [decode_append_ascii a ascii,decode_ascii a ascii,encode_append]
    simp [encode,encode_ascii a ascii]

theorem mem_decode_ascii (a : UInt8) (ascii : a < 0x80) (b : Bytes) : Char.ofNat a.toNat ∈ decode b ↔ a ∈ b := by
  rw [← ascii_mem_reencode a ascii b,encode,List.mem_flatMap]
  constructor
  · intro member
    exact ⟨_,member,by simp [encode_ascii a ascii]⟩
  · rintro ⟨c,member,inside⟩
    rwa [← ascii_of_mem c a ascii inside]

/-- A buffer decodes to an ASCII character as often as it holds its byte. -/
theorem decode_count (a : UInt8) (ascii : a < 0x80) (b : Bytes) : (decode b).count (Char.ofNat a.toNat) = b.count a := by
  by_cases member : a ∈ b
  · obtain ⟨before,tail,rfl,free⟩ := List.eq_append_cons_of_mem member
    have shorter : tail.length < (before ++ a::tail).length := by
      rw [List.length_append,List.length_cons]
      omega
    have none : (decode before).count (Char.ofNat a.toNat) = 0 :=
      List.count_eq_zero.mpr ((mem_decode_ascii a ascii before).not.mpr free)
    rw [decode_append_ascii a ascii,decode_ascii a ascii,List.count_append,none,List.count_cons_self,
      decode_count a ascii tail,List.count_append,List.count_eq_zero.mpr free,List.count_cons_self]
  · rw [List.count_eq_zero.mpr ((mem_decode_ascii a ascii b).not.mpr member),List.count_eq_zero.mpr member]
termination_by b.length

theorem reencode_append_ascii (a : UInt8) (ascii : a < 0x80) (before tail : Bytes) :
    encode (decode (before ++ a::tail)) =
      encode (decode before) ++ a::encode (decode tail) := by
  rw [decode_append_ascii a ascii,decode_ascii a ascii,encode_append]
  simp [encode,encode_ascii a ascii]

theorem reencode_eq_nil (b : Bytes) : encode (decode b) = [] ↔ b = [] := by
  constructor
  · intro empty
    cases b with
    | nil => rfl
    | cons lead rest =>
      have bytes (c : Char) : String.utf8EncodeChar c ≠ [] := by
        intro none
        have size := congrArg List.length none
        have positive := Char.utf8Size_pos c
        simp only [String.length_utf8EncodeChar,List.length_nil] at size
        omega
      rw [decode] at empty
      cases found : firstChar (lead::rest) <;> simp [found,encode,bytes] at empty
  · rintro rfl
    simp [encode]

def WellFormed (b : Bytes) : Prop := ∃ cs, b = encode cs

theorem reencode_iff (b : Bytes) : encode (decode b) = b ↔ WellFormed b := by
  constructor
  · intro same
    exact ⟨decode b,same.symm⟩
  · rintro ⟨cs,rfl⟩
    rw [decode_encode]

/-- A buffer that ends where an ASCII byte follows is sent on unaltered if it starts what is
sent on of it. -/
theorem reencode_starts (a : UInt8) (ascii : a < 0x80) {b x y : Bytes}
    (same : encode (decode b) ++ a::x = b ++ a::y) : encode (decode b) = b := by
  induction size : b.length using Nat.strongRecOn generalizing b with
  | ind n ih =>
    cases b with
    | nil => simp [encode]
    | cons lead rest =>
      cases found : firstChar (lead::rest) with
      | some c =>
        obtain ⟨after,split⟩ := (firstChar_iff _ c).mp found
        have char := decode_char c after
        have shorter : after.length < n := by
          have positive := Char.utf8Size_pos c
          rw [← size,split,List.length_append,String.length_utf8EncodeChar]
          omega
        rw [split,char,encode,List.flatMap_cons] at same ⊢
        rw [List.append_assoc,List.append_assoc] at same
        exact congrArg _ (ih _ shorter (List.append_cancel_left same) rfl)
      | none =>
        -- The replacement character is not among malformed bytes, and no ASCII byte is in it.
        have bytes : String.utf8EncodeChar replacement = [0xEF,0xBF,0xBD] := by decide
        have third : a ≠ 0xBD := by rintro rfl; exact absurd ascii (by decide)
        have second : a ≠ 0xBF := by rintro rfl; exact absurd ascii (by decide)
        rw [decode] at same
        simp only [found,encode,List.flatMap_cons,bytes,List.cons_append,List.nil_append,
          List.cons.injEq] at same
        obtain ⟨first,others⟩ := same
        match rest with
        | [] => exact absurd (List.cons.inj others).1.symm second
        | [_] => exact absurd (List.cons.inj (List.cons.inj others).2).1.symm third
        | m::l::tail =>
          simp only [List.cons_append,List.cons.injEq] at others
          have whole := (firstChar_iff (lead::m::l::tail) replacement).mpr
            ⟨tail,by rw [bytes,← first,← others.1,← others.2.1]; rfl⟩
          rw [found] at whole
          contradiction

/-- What is before an ASCII byte of a text is a text, and with the byte too. -/
theorem wellFormed_before {a : UInt8} (ascii : a < 0x80) {before tail : Bytes} (whole : WellFormed (before ++ a::tail)) :
    WellFormed before ∧ WellFormed (before ++ [a]) := by
  have same := (reencode_iff _).mpr whole
  rw [reencode_append_ascii a ascii] at same
  have own := reencode_starts a ascii same
  refine ⟨(reencode_iff _).mp own,(reencode_iff _).mp ?_⟩
  rw [reencode_append_ascii a ascii,own,decode_nil]
  rfl

/-- A run of units ends in the first part wherever the second part cannot take it further. -/
theorem dropWhile_append_stop {p : UInt16 → Bool} {s t : Str}
    (stops : s.dropWhile p = [] → ∀ u ∈ t.head?, p u = false) :
    (s ++ t).takeWhile p = s.takeWhile p ∧ (s ++ t).dropWhile p = s.dropWhile p ++ t := by
  induction s with
  | nil =>
    cases t with
    | nil => exact ⟨rfl,rfl⟩
    | cons u rest =>
      have other := stops rfl u rfl
      simp [other]
  | cons u rest ih =>
    cases taken : p u with
    | false => simp [taken]
    | true =>
      simp only [List.dropWhile_cons,taken,if_true] at stops
      simpa [taken] using ih stops

theorem scalars_unit (u : UInt16) (rest : Str) (plain : u.toNat < 0xD800 ∨ 0xE000 ≤ u.toNat) :
    scalars (u::rest) = Char.ofNat u.toNat :: scalars rest := by
  have notHigh : ¬ (0xD800 ≤ u.toNat ∧ u.toNat < 0xDC00) := by omega
  have notLow : ¬ (0xDC00 ≤ u.toNat ∧ u.toNat < 0xE000) := by omega
  cases rest <;> simp only [scalars,notHigh,notLow,if_false]

theorem scalars_pair (u v : UInt16) (rest : Str) (high : 0xD800 ≤ u.toNat ∧ u.toNat < 0xDC00)
    (low : 0xDC00 ≤ v.toNat ∧ v.toNat < 0xE000) :
    scalars (u::v::rest) =
      Char.ofNat (0x10000 + (u.toNat - 0xD800) * 0x400 + (v.toNat - 0xDC00)) :: scalars rest := by
  rw [scalars,if_pos high,if_pos low]

theorem utf16_filled (c : Char) : utf16 c ≠ [] := by
  unfold utf16
  split_ifs <;> simp

theorem scalars_utf16 (cs : List Char) : scalars (cs.flatMap utf16) = cs := by
  induction cs with
  | nil => rfl
  | cons c rest ih =>
    have valid : c.toNat < 0xD800 ∨ 0xDFFF < c.toNat ∧ c.toNat < 0x110000 := c.valid
    simp only [List.flatMap_cons,utf16]
    split
    · next small =>
      have value : (UInt16.ofNat c.toNat).toNat = c.toNat := by
        simp only [UInt16.toNat_ofNat']
        omega
      rw [List.singleton_append,scalars_unit _ _ (by omega),value,Char.ofNat_toNat,ih]
    · next large =>
      have high : (UInt16.ofNat (0xD800 + (c.toNat - 0x10000) / 0x400)).toNat =
          0xD800 + (c.toNat - 0x10000) / 0x400 := by
        simp only [UInt16.toNat_ofNat']
        omega
      have low : (UInt16.ofNat (0xDC00 + (c.toNat - 0x10000) % 0x400)).toNat =
          0xDC00 + (c.toNat - 0x10000) % 0x400 := by
        simp only [UInt16.toNat_ofNat']
        omega
      have joined : 0x10000 + (0xD800 + (c.toNat - 0x10000) / 0x400 - 0xD800) * 0x400 +
          (0xDC00 + (c.toNat - 0x10000) % 0x400 - 0xDC00) = c.toNat := by omega
      rw [List.cons_append,List.singleton_append,scalars_pair _ _ _ (by omega) (by omega),
        high,low,joined,Char.ofNat_toNat,ih]

theorem str_injective : Function.Injective str := by
  intro s t same
  have texts := congrArg scalars same
  rw [str,str,scalars_utf16,scalars_utf16] at texts
  exact String.toList_inj.mp texts

theorem fromString_toString (b : Bytes) : fromString (toString b) = encode (decode b) := by
  rw [fromString,toString,scalars_utf16]

theorem toString_eq_nil (b : Bytes) : toString b = [] ↔ b = [] := by
  constructor
  · intro empty
    rw [← reencode_eq_nil,← fromString_toString,empty]
    rfl
  · rintro rfl
    rw [toString,decode_nil]
    rfl

theorem toString_ascii (a : UInt8) (ascii : a < 0x80) (rest : Bytes) :
    toString (a::rest) = UInt16.ofNat a.toNat :: toString rest := by
  have small : a.toNat < 0x80 := UInt8.lt_iff_toNat_lt.mp ascii
  rw [toString,decode_ascii a ascii,List.flatMap_cons,utf16,ascii_toNat a ascii,
    if_pos (by omega)]
  rfl

theorem utf16_ascii (a : UInt8) (ascii : a < 0x80) (c : Char) : UInt16.ofNat a.toNat ∈ utf16 c ↔ c = Char.ofNat a.toNat := by
  have small : a.toNat < 0x80 := UInt8.lt_iff_toNat_lt.mp ascii
  have unit : (UInt16.ofNat a.toNat).toNat = a.toNat := by
    rw [UInt16.toNat_ofNat']
    omega
  have valid : c.toNat < 0xD800 ∨ 0xDFFF < c.toNat ∧ c.toNat < 0x110000 := c.valid
  constructor
  · intro member
    have value : c.toNat = a.toNat := by
      rw [utf16] at member
      split_ifs at member
      · rw [List.mem_singleton.mp member,UInt16.toNat_ofNat'] at unit
        omega
      · exfalso
        rcases List.mem_pair.mp member with same | same <;> rw [same,UInt16.toNat_ofNat'] at unit <;> omega
    rw [← value,Char.ofNat_toNat]
  · rintro rfl
    rw [utf16,ascii_toNat a ascii,if_pos (by omega)]
    exact List.mem_singleton_self _

theorem mem_toString_ascii (a : UInt8) (ascii : a < 0x80) (b : Bytes) : UInt16.ofNat a.toNat ∈ toString b ↔ a ∈ b := by
  rw [← mem_decode_ascii a ascii,toString,List.mem_flatMap]
  constructor
  · rintro ⟨c,member,inside⟩
    rwa [← (utf16_ascii a ascii c).mp inside]
  · intro member
    exact ⟨_,member,(utf16_ascii a ascii _).mpr rfl⟩

theorem toString_append_ascii (a : UInt8) (ascii : a < 0x80) (before tail : Bytes) :
    toString (before ++ a::tail) = toString before ++ UInt16.ofNat a.toNat :: toString tail := by
  rw [← toString_ascii a ascii,toString,decode_append_ascii a ascii,List.flatMap_append]
  rfl

theorem of_toString_cons (b : Bytes) (u : UInt16) (tail : Str) (small : u.toNat < 0x80)
    (same : toString b = u::tail) :
    ∃ rest, b = UInt8.ofNat u.toNat :: rest ∧ tail = toString rest := by
  cases b with
  | nil => simp [toString] at same
  | cons lead rest =>
    rw [toString,decode] at same
    cases found : firstChar (lead::rest) with
    | none =>
      have units : utf16 replacement = [0xFFFD] := by decide
      simp only [found,List.flatMap_cons,units,List.cons_append,List.cons.injEq] at same
      obtain ⟨rfl,_⟩ := same
      simp at small
    | some c =>
      obtain ⟨after,split⟩ := (firstChar_iff _ c).mp found
      have units := same
      simp only [found,List.flatMap_cons,utf16] at units
      have value : c.toNat = u.toNat := by
        split at units
        · next bmp =>
          simp only [List.cons_append,List.cons.injEq] at units
          rw [← units.1,UInt16.toNat_ofNat']
          omega
        · next large =>
          have valid : c.toNat < 0xD800 ∨ 0xDFFF < c.toNat ∧ c.toNat < 0x110000 := c.valid
          simp only [List.cons_append,List.cons.injEq] at units
          rw [← units.1,UInt16.toNat_ofNat'] at small
          omega
      have byte : (UInt8.ofNat u.toNat).toNat = u.toNat := by
        simp only [UInt8.toNat_ofNat']
        omega
      have ascii : UInt8.ofNat u.toNat < 0x80 := UInt8.lt_iff_toNat_lt.mpr (by rw [byte]; exact small)
      have char : String.utf8EncodeChar c = [UInt8.ofNat u.toNat] := by
        rw [← encode_ascii _ ascii,byte,← value,Char.ofNat_toNat]
      rw [char] at split
      refine ⟨after,split,?_⟩
      have again := toString_ascii _ ascii after
      rw [← List.singleton_append,← split,toString,decode,found] at again
      simp only [found] at same
      rw [same] at again
      exact (List.cons.inj again).2

/-- Comparing a decoded string with ASCII text is comparing the bytes. -/
theorem toString_startsWith (p : Str) (ascii : ∀ u ∈ p, u.toNat < 0x80) (b : Bytes) :
    p <+: toString b ↔ p.map (fun u => UInt8.ofNat u.toNat) <+: b := by
  induction p generalizing b with
  | nil => simp
  | cons u p ih =>
    have small := ascii u (by simp)
    have rest := ih (fun v member => ascii v (by simp [member]))
    have byte : (UInt8.ofNat u.toNat).toNat = u.toNat := by
      simp only [UInt8.toNat_ofNat']
      omega
    constructor
    · rintro ⟨tail,same⟩
      obtain ⟨after,split,later⟩ := of_toString_cons b u (p ++ tail) small same.symm
      have inner := (rest after).mp ⟨tail,later⟩
      rw [split,List.map_cons]
      exact List.cons_prefix_cons.mpr ⟨rfl,inner⟩
    · rintro ⟨tail,rfl⟩
      rw [List.map_cons,List.cons_append,
        toString_ascii _ (UInt8.lt_iff_toNat_lt.mpr (by rw [byte]; exact small)),byte,
        UInt16.ofNat_toNat]
      exact List.cons_prefix_cons.mpr ⟨rfl,(rest _).mpr ⟨tail,rfl⟩⟩

theorem mem_str_ascii (a : UInt8) (ascii : a < 0x80) (s : String) : UInt16.ofNat a.toNat ∈ str s ↔ Char.ofNat a.toNat ∈ s.toList := by
  rw [str,List.mem_flatMap]
  constructor
  · rintro ⟨c,member,inside⟩
    rwa [← (utf16_ascii a ascii c).mp inside]
  · intro member
    exact ⟨_,member,(utf16_ascii a ascii _).mpr rfl⟩

/-! ## Strings of characters -/

/-- Every surrogate is one of a pair. -/
def Paired (s : Str) : Prop := ∃ cs : List Char, cs.flatMap utf16 = s

theorem Paired.append {s t : Str} (left : Paired s) (right : Paired t) : Paired (s ++ t) := by
  obtain ⟨cs,rfl⟩ := left
  obtain ⟨ds,rfl⟩ := right
  exact ⟨cs ++ ds,List.flatMap_append⟩

theorem paired_str (s : String) : Paired (str s) := ⟨s.toList,rfl⟩

theorem paired_ascii {s : Str} (ascii : ∀ u ∈ s, u.toNat < 0x80) : Paired s := by
  induction s with
  | nil => exact ⟨[],rfl⟩
  | cons u rest ih =>
    have small := ascii u List.mem_cons_self
    have char : utf16 (Char.ofNat u.toNat) = [u] := by
      have value : (Char.ofNat u.toNat).toNat = u.toNat := ofNat_scalar (Or.inl (by omega))
      rw [utf16,value,if_pos (by omega),UInt16.ofNat_toNat]
    have first : Paired [u] := ⟨[Char.ofNat u.toNat],by rw [List.flatMap_singleton,char]⟩
    exact first.append (ih fun v member => ascii v (List.mem_cons_of_mem u member))

theorem toString_fromString {s : Str} (paired : Paired s) : toString (fromString s) = s := by
  obtain ⟨cs,rfl⟩ := paired
  rw [fromString,scalars_utf16,toString,decode_encode]

example : decode [0x61,0xF0,0x9F,0x98,0x41] = ['a',replacement,'A'] := by decide +kernel
example : fromString (toString [0xE2,0x82,0xAC,0xF0,0x9F,0x98,0x80]) = [0xE2,0x82,0xAC,0xF0,0x9F,0x98,0x80] := by
  decide +kernel
example : str "EVENT" = [69,86,69,78,84] := by decide

end Text
end FipsShield
