import FipsShield.Library.Numeral
import Mathlib.Tactic.Linarith
import Mathlib.Tactic.FieldSimp
import Mathlib.Tactic.Positivity
import Mathlib.Data.Rat.Floor
import Mathlib.Tactic.IntervalCases
import Mathlib.Data.Nat.Log
import Mathlib.Data.List.TakeWhile

/-! Whole numbers as decimal text: what is printed is read back, and binary64 holds
those below 2^53 exactly. -/
namespace FipsShield.Numeral
open Text

/-- A natural number in decimal, as `echo` and `date +%s` print it. -/
def natText (n : Nat) : Str := (Nat.toDigits 10 n).map fun c => UInt16.ofNat c.toNat

def intText : Int → Str
  | .ofNat n => natText n
  | .negSucc n => 0x2D :: natText (n + 1)

theorem digit_unit {c : Char} (digit : c.isDigit = true) :
    isDigit (UInt16.ofNat c.toNat) = true ∧ (UInt16.ofNat c.toNat).toNat = c.toNat := by
  have bounds : 48 ≤ c.toNat ∧ c.toNat ≤ 57 := by
    simpa [Char.isDigit,UInt32.le_iff_toNat_le] using digit
  have same : (UInt16.ofNat c.toNat).toNat = c.toNat := by
    rw [UInt16.toNat_ofNat']
    exact Nat.mod_eq_of_lt (by omega)
  refine ⟨?_,same⟩
  simp only [isDigit,Bool.and_eq_true,decide_eq_true_eq,UInt16.le_iff_toNat_le,same]
  exact bounds

def digitUnits (ds : List Char) : Str := ds.map fun c => UInt16.ofNat c.toNat

theorem digitUnits_digits {ds : List Char} (digits : ∀ c ∈ ds, c.isDigit = true) :
    ∀ u ∈ digitUnits ds, isDigit u = true := by
  intro u member
  obtain ⟨c,within,rfl⟩ := List.mem_map.mp member
  exact (digit_unit (digits c within)).1

theorem utf16_digit {c : Char} (digit : c.isDigit = true) : utf16 c = [UInt16.ofNat c.toNat] := by
  have bound : c.toNat ≤ 57 := by
    simp only [Char.isDigit,Bool.and_eq_true,decide_eq_true_eq] at digit
    exact digit.2
  exact if_pos (by omega)

theorem flatMap_digits {ds : List Char} (digits : ∀ c ∈ ds, c.isDigit = true) : ds.flatMap utf16 = digitUnits ds := by
  induction ds with
  | nil => rfl
  | cons c rest ih =>
    rw [List.flatMap_cons,utf16_digit (digits c (by simp)),ih fun d member => digits d (by simp [member])]
    rfl

theorem natText_digits (n : Nat) : ∀ u ∈ natText n, isDigit u = true := by
  intro u member
  obtain ⟨c,within,rfl⟩ := List.mem_map.mp member
  exact (digit_unit (Nat.isDigit_of_mem_toDigits (by decide) (by decide) within)).1

theorem natText_ne_nil (n : Nat) : natText n ≠ [] := by
  simp [natText]

theorem digitsValue_natText (n : Nat) : digitsValue (natText n) = n := by
  have units : ∀ cs : List Char, (∀ c ∈ cs, c.isDigit = true) → ∀ start,
      (cs.map fun c => UInt16.ofNat c.toNat).foldl (fun n d => n * 10 + (d.toNat - 0x30)) start =
        Nat.ofDigitChars 10 cs start := by
    intro cs digits
    induction cs with
    | nil => exact fun _ => rfl
    | cons c rest ih =>
      intro start
      have unit := (digit_unit (digits c (by simp))).2
      rw [List.map_cons,List.foldl_cons,unit,ih (fun d member => digits d (by simp [member])),
        Nat.ofDigitChars_cons,Nat.mul_comm start]
      rfl
  rw [digitsValue,natText,units _ (fun c within => Nat.isDigit_of_mem_toDigits (by decide) (by decide) within)]
  exact Nat.ofDigitChars_ten_toDigits

theorem natText_head {n : Nat} (positive : 0 < n) : (natText n).head? ≠ some 0x30 := by
  induction n using Nat.strongRecOn with
  | ind n ih =>
    by_cases small : n < 10
    · rw [natText,Nat.toDigits_of_lt_base small]
      interval_cases n <;> decide
    · have rest := ih (n / 10) (Nat.div_lt_self positive (by decide)) (by omega)
      have filled : natText (n / 10) ≠ [] := natText_ne_nil _
      have split : natText n = natText (n / 10) ++ [UInt16.ofNat (n % 10).digitChar.toNat] := by
        rw [natText,Nat.toDigits_of_base_le (by decide) (by omega),List.map_append]
        rfl
      rw [split,List.head?_append_of_ne_nil _ filled]
      exact rest

/-! ## Rounding -/

theorem power_eq (base : Nat) (e : Int) : Number.power base e = (base : ℚ) ^ e := by
  unfold Number.power
  split_ifs with up
  · obtain ⟨n,rfl⟩ := Int.eq_ofNat_of_zero_le up
    simp
  · obtain ⟨n,rfl⟩ : ∃ n : Nat, e = -n := ⟨(-e).toNat,by omega⟩
    simp

theorem power_two (e : Int) : Number.power 2 e = (2 : ℚ) ^ e := power_eq 2 e

theorem roundHalfEven_int (n : Int) : Number.roundHalfEven n = n := by
  have floor : (n : ℚ).floor = n := Rat.floor_intCast n
  simp [Number.roundHalfEven,floor]

theorem floor_le_roundHalfEven (q : ℚ) : q.floor ≤ Number.roundHalfEven q := by
  simp only [Number.roundHalfEven]
  split_ifs <;> omega

def lastBit (n : Nat) : ℚ := 2 ^ ((Nat.log2 n : Int) - 52)

theorem nearest_natCast {n : Nat} (positive : 0 < n) : Number.nearest (n : ℚ) =
    if ((2 ^ 1024 : Nat) : ℚ) ≤ Number.roundHalfEven (n / lastBit n) * lastBit n then .posInf
    else .fin (Number.roundHalfEven (n / lastBit n) * lastBit n) := by
  have above : (0 : ℚ) < n := by exact_mod_cast positive
  have size : |(n : ℚ)| = n := abs_of_pos above
  have within : (2 : ℚ) ^ (Nat.log2 n : Int) ≤ (n : ℚ) := by
    rw [zpow_natCast]
    exact_mod_cast Nat.log2_self_le positive.ne'
  have low : max ((Nat.log2 n : Int) - 52) (-1074) = (Nat.log2 n : Int) - 52 := max_eq_left (by omega)
  have guess : ((Nat.log2 (n : ℚ).num.natAbs : Int) - Nat.log2 (n : ℚ).den) = Nat.log2 n := by
    have one : Nat.log2 1 = 0 := by decide
    simp [one]
  simp only [Number.nearest,size,guess,if_neg above.ne',if_pos above,if_pos within,low,power_two]
  rfl

theorem lastBit_pos (n : Nat) : 0 < lastBit n := zpow_pos (by norm_num) _

/-- Whole numbers below 2^53 are held exactly. -/
theorem nearest_exact {n : Nat} (small : n < 2 ^ 53) : Number.nearest (n : ℚ) = .fin n := by
  rcases Nat.eq_zero_or_pos n with rfl | positive
  · simp [Number.nearest]
  · have bits : Nat.log2 n ≤ 52 := Nat.lt_succ_iff.mp ((Nat.log2_lt positive.ne').mpr small)
    obtain ⟨k,split⟩ : ∃ k : Nat, (Nat.log2 n : Int) - 52 = -k := ⟨52 - Nat.log2 n,by omega⟩
    have scaled : (n : ℚ) / lastBit n = ((n * 2 ^ k : Nat) : Int) := by
      rw [lastBit,split,zpow_neg,div_inv_eq_mul,zpow_natCast]
      push_cast
      rfl
    have whole : (Number.roundHalfEven (n / lastBit n) : ℚ) * lastBit n = n := by
      rw [scaled,roundHalfEven_int,← scaled]
      exact div_mul_cancel₀ _ (lastBit_pos n).ne'
    have finite : ¬ ((2 ^ 1024 : Nat) : ℚ) ≤ n := by
      rw [not_le]
      exact_mod_cast small.trans (Nat.pow_lt_pow_right (by decide) (by decide))
    rw [nearest_natCast positive,whole,if_neg finite]

theorem le_nearest {n : Nat} (large : 2 ^ 53 ≤ n) : ((2 ^ 53 : Nat) : Number) ≤ Number.nearest n := by
  have positive : 0 < n := lt_of_lt_of_le (by decide) large
  have bits : 53 ≤ Nat.log2 n := (Nat.le_log2 positive.ne').mpr large
  have filled : (2 ^ 52 : ℚ) ≤ n / lastBit n := by
    rw [le_div_iff₀ (lastBit_pos n),lastBit,← zpow_natCast,← zpow_add₀ (by norm_num)]
    have sum : ((52 : Nat) : Int) + ((Nat.log2 n : Int) - 52) = (Nat.log2 n : Int) := by omega
    rw [sum,zpow_natCast]
    exact_mod_cast Nat.log2_self_le positive.ne'
  have floor : (2 ^ 52 : Int) ≤ Number.roundHalfEven (n / lastBit n) := by
    refine le_trans ?_ (floor_le_roundHalfEven _)
    rw [Rat.le_floor_iff]
    exact_mod_cast filled
  have bound : (2 ^ 53 : ℚ) ≤ Number.roundHalfEven (n / lastBit n) * lastBit n := by
    have unit : (2 : ℚ) ≤ lastBit n := by
      rw [lastBit]
      calc (2 : ℚ) = 2 ^ (1 : Int) := by norm_num
        _ ≤ 2 ^ ((Nat.log2 n : Int) - 52) := zpow_le_zpow_right₀ (by norm_num) (by omega)
    have most : (2 ^ 52 : ℚ) ≤ Number.roundHalfEven (n / lastBit n) := by exact_mod_cast floor
    calc (2 ^ 53 : ℚ) = 2 ^ 52 * 2 := by norm_num
      _ ≤ Number.roundHalfEven (n / lastBit n) * lastBit n := by gcongr
  rw [nearest_natCast positive]
  split_ifs
  · rfl
  · apply (Number.fin_le_fin _ _).mpr
    exact_mod_cast bound

/-- A whole number is zero, or later than one below 2^53, as it is held. -/
theorem nearest_eq_zero (n : Nat) : Number.nearest (n : ℚ) = 0 ↔ n = 0 := by
  rcases lt_or_ge n (2 ^ 53) with small | large
  · rw [nearest_exact small]
    exact Number.natCast_inj n 0
  · refine iff_of_false (fun zero => ?_) (by omega)
    have bounded := le_nearest large
    rw [zero] at bounded
    exact absurd ((Number.fin_le_fin _ _).mp bounded) (by norm_num)

theorem lt_nearest {now : Nat} (early : now < 2 ^ 53) (n : Nat) : (now : Number) < Number.nearest (n : ℚ) ↔ now < n := by
  rcases lt_or_ge n (2 ^ 53) with small | large
  · rw [nearest_exact small]
    exact Number.natCast_lt now n
  · exact iff_of_true (Number.lt_of_natCast_le early (le_nearest large)) (by omega)

/-! ## Reading what was printed -/

theorem signed_digits (plus : Bool) {ds : Str} (digits : ∀ u ∈ ds, isDigit u = true) :
    signed plus ds = (false,ds) := by
  cases ds with
  | nil => rfl
  | cons u rest =>
    have digit := digits u (by simp)
    have minus : u ≠ 0x2D := by rintro rfl; revert digit; decide
    have sign : u ≠ 0x2B := by rintro rfl; revert digit; decide
    simp [signed,minus,sign]

theorem takeWhile_digits {ds : Str} (digits : ∀ u ∈ ds, isDigit u = true) :
    ds.takeWhile isDigit = ds ∧ ds.dropWhile isDigit = [] :=
  ⟨List.takeWhile_eq_self_iff.mpr digits,List.dropWhile_eq_nil_iff.mpr digits⟩

theorem digit_not_space {u : UInt16} (digit : isDigit u = true) : isSpace u = false := by
  simp only [isDigit,Bool.and_eq_true,decide_eq_true_eq,UInt16.le_iff_toNat_le] at digit
  simp only [isSpace,Bool.or_eq_false_iff,Bool.and_eq_false_iff,decide_eq_false_iff_not,beq_eq_false_iff_ne,
    ne_eq,UInt16.le_iff_toNat_le,← UInt16.toNat_inj] at *
  simp at *
  omega

theorem dropWhile_space {ds : Str} (digits : ∀ u ∈ ds, isDigit u = true) : ds.dropWhile isSpace = ds := by
  cases ds with
  | nil => rfl
  | cons u rest => simp [digit_not_space (digits u (by simp))]

theorem parseFloat_natText (n : Nat) : parseFloat (natText n) = Number.nearest (n : ℚ) := by
  have digits := natText_digits n
  have finite : (str "Infinity").isPrefixOf (natText n) = false := by
    cases text : natText n with
    | nil => rfl
    | cons u rest =>
      have digit := digits u (by simp [text])
      have letter : u ≠ 0x49 := by rintro rfl; revert digit; decide
      simp [str,utf16,List.isPrefixOf,letter.symm]
  have value : digitsValue (natText n) * Number.power 10 0 = (n : ℚ) := by
    rw [digitsValue_natText]
    simp [Number.power]
  simp only [parseFloat,dropWhile_space digits,signed_digits true digits,finite,takeWhile_digits digits,
    fractionPart,natText_ne_nil,exponentPart,decimal]
  simp only [List.append_nil,List.length_nil,Option.map_none,Option.getD_none,Nat.cast_zero,sub_zero,value]
  rfl

/-- `parseInt(s, 10)`. -/
def parseInt (s : Str) : Number :=
  let (negative,body) := signed true (s.dropWhile isSpace)
  let ds := body.takeWhile isDigit
  if ds = [] then .nan else decimal negative ds 0

theorem parseInt_natText {n : Nat} (small : n < 2 ^ 53) : parseInt (natText n) = n := by
  have digits := natText_digits n
  have value : digitsValue (natText n) * Number.power 10 0 = (n : ℚ) := by
    rw [digitsValue_natText]
    simp [Number.power]
  simp only [parseInt,dropWhile_space digits,signed_digits true digits,takeWhile_digits digits,natText_ne_nil,
    decimal,value]
  exact nearest_exact small

end FipsShield.Numeral
