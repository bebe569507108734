import FipsShield.Library.Text

/-! The syntax of UTF-8 (RFC 3629, section 4) over bytes, and that it is the image
of the encoding: decoding loses nothing on exactly the texts it derives. -/
namespace FipsShield.Text

/-- `UTF8-char`, by the number of its bytes. -/
inductive Utf8Char : Bytes → Prop where
  | one {a : UInt8} (lead : a.toNat < 0x80) : Utf8Char [a]
  | two {a b : UInt8} (lead : 0xC2 ≤ a.toNat ∧ a.toNat < 0xE0) (second : continues b = true) : Utf8Char [a,b]
  | three {a b c : UInt8} (lead : a.toNat < 0xF0) (second : admits a b = true) (third : continues c = true) :
      Utf8Char [a,b,c]
  | four {a b c d : UInt8} (lead : 0xF0 ≤ a.toNat) (second : admits a b = true)
      (third : continues c = true) (fourth : continues d = true) : Utf8Char [a,b,c,d]

/-- `UTF8-octets`. -/
inductive Utf8 : Bytes → Prop where
  | nil : Utf8 []
  | cons {c rest : Bytes} (first : Utf8Char c) (more : Utf8 rest) : Utf8 (c ++ rest)

theorem continues_iff (b : UInt8) : continues b = true ↔ 0x80 ≤ b.toNat ∧ b.toNat ≤ 0xBF := by
  simp [continues,UInt8.le_iff_toNat_le]

theorem admits_iff (lead second : UInt8) : admits lead second = true ↔
    lead.toNat = 0xE0 ∧ 0xA0 ≤ second.toNat ∧ second.toNat ≤ 0xBF ∨
      lead.toNat = 0xED ∧ 0x80 ≤ second.toNat ∧ second.toNat ≤ 0x9F ∨
      lead.toNat = 0xF0 ∧ 0x90 ≤ second.toNat ∧ second.toNat ≤ 0xBF ∨
      lead.toNat = 0xF4 ∧ 0x80 ≤ second.toNat ∧ second.toNat ≤ 0x8F ∨
      (0xE0 < lead.toNat ∧ lead.toNat < 0xF4 ∧ lead.toNat ≠ 0xED ∧ lead.toNat ≠ 0xF0) ∧
        0x80 ≤ second.toNat ∧ second.toNat ≤ 0xBF := by
  simp only [admits,continues,← UInt8.toNat_inj,UInt8.le_iff_toNat_le,UInt8.lt_iff_toNat_lt,UInt8.reduceToNat]
  split_ifs <;> simp only [Bool.and_eq_true,decide_eq_true_eq] <;> omega

theorem scalar_bounds (c : Char) : c.val.toNat < 0xD800 ∨ 0xDFFF < c.val.toNat ∧ c.val.toNat < 0x110000 := c.valid

/-- What a character encodes to is derived. -/
theorem encodeChar_utf8 (c : Char) : Utf8Char (String.utf8EncodeChar c) := by
  have bounds := scalar_bounds c
  simp only [String.utf8EncodeChar]
  generalize c.val.toNat = v at bounds
  split_ifs with one two three
  · exact .one (by simp; omega)
  · refine .two ?_ ((continues_iff _).mpr ?_) <;> simp <;> omega
  · refine .three ?_ ((admits_iff _ _).mpr ?_) ((continues_iff _).mpr ?_) <;> simp <;> omega
  · refine .four ?_ ((admits_iff _ _).mpr ?_) ((continues_iff _).mpr ?_) ((continues_iff _).mpr ?_) <;> simp <;> omega

theorem utf8Char_encodes {x : Bytes} (derived : Utf8Char x) : ∃ c, String.utf8EncodeChar c = x := by
  have same (a : UInt8) {n : Nat} (value : n = a.toNat) : UInt8.ofNat n = a := by
    rw [value,UInt8.ofNat_toNat]
  cases derived with
  | @one a lead =>
    refine ⟨Char.ofNat a.toNat,?_⟩
    rw [String.utf8EncodeChar,ofNat_scalar (by omega),if_pos (by omega),same a rfl]
  | @two a b lead second =>
    rw [continues_iff] at second
    refine ⟨Char.ofNat ((a.toNat - 0xC0) * 64 + (b.toNat - 0x80)),?_⟩
    rw [String.utf8EncodeChar,ofNat_scalar (by omega),if_neg (by omega),if_pos (by omega),same a (by omega),
      same b (by omega)]
  | @three a b c lead second third =>
    rw [continues_iff] at third
    rw [admits_iff] at second
    refine ⟨Char.ofNat ((a.toNat - 0xE0) * 4096 + (b.toNat - 0x80) * 64 + (c.toNat - 0x80)),?_⟩
    rw [String.utf8EncodeChar,ofNat_scalar (by omega),if_neg (by omega),if_neg (by omega),if_pos (by omega),
      same a (by omega),same b (by omega),same c (by omega)]
  | @four a b c d lead second third fourth =>
    rw [continues_iff] at third fourth
    rw [admits_iff] at second
    refine ⟨Char.ofNat ((a.toNat - 0xF0) * 262144 + (b.toNat - 0x80) * 4096 + (c.toNat - 0x80) * 64 +
      (d.toNat - 0x80)),?_⟩
    rw [String.utf8EncodeChar,ofNat_scalar (by omega),if_neg (by omega),if_neg (by omega),if_neg (by omega),
      same a (by omega),same b (by omega),same c (by omega),same d (by omega)]

theorem utf8_iff (b : Bytes) : Utf8 b ↔ WellFormed b := by
  constructor
  · intro derived
    induction derived with
    | nil => exact ⟨[],rfl⟩
    | cons first _ ih =>
      obtain ⟨c,rfl⟩ := utf8Char_encodes first
      obtain ⟨cs,rfl⟩ := ih
      exact ⟨c::cs,rfl⟩
  · rintro ⟨cs,rfl⟩
    induction cs with
    | nil => exact .nil
    | cons c cs ih => exact .cons (encodeChar_utf8 c) ih

/-- Encoding what was decoded gives the bytes back if and only if they are UTF-8. -/
theorem reencode_utf8 (b : Bytes) : fromString (toString b) = b ↔ Utf8 b := by
  rw [fromString_toString,reencode_iff,utf8_iff]

end FipsShield.Text
