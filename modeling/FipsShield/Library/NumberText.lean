import FipsShield.Library.Decimal

/-! Whole binary64 numbers and their texts: the floor of a binary64 value is one, and a
text that `String` prints of one reads back as it, so no two are printed alike. -/
namespace FipsShield.Numeral
open Text

/-! ## Rounding twice -/

theorem below_leading {r : ℚ} (positive : 0 < r) :
    r < 2 ^ ((Nat.log2 r.num.natAbs : Int) - Nat.log2 r.den + 1) := by
  have numerator : (0 : Int) < r.num := Rat.num_pos.mpr positive
  have absolute : (r.num.natAbs : Int) = r.num := Int.natAbs_of_nonneg numerator.le
  have top : (r.num.natAbs : ℚ) < 2 ^ ((Nat.log2 r.num.natAbs : Int) + 1) := by
    have bound := Nat.lt_log2_self (n := r.num.natAbs)
    exact_mod_cast bound
  have bottom : (2 : ℚ) ^ (Nat.log2 r.den : Int) ≤ r.den := by
    rw [zpow_natCast]
    exact_mod_cast Nat.log2_self_le r.den_nz
  have den : (0 : ℚ) < r.den := by exact_mod_cast r.den_pos
  have quotient : r = (r.num.natAbs : ℚ) / r.den := by
    have whole : (r.num.natAbs : ℚ) = (r.num : ℚ) := by
      simpa only [Int.cast_natCast] using congrArg (fun n : Int => (n : ℚ)) absolute
    rw [whole,Rat.num_div_den]
  have split : (Nat.log2 r.num.natAbs : Int) - Nat.log2 r.den + 1 = (Nat.log2 r.num.natAbs : Int) + 1 - Nat.log2 r.den := by
    omega
  rw [quotient,← quotient,split,zpow_sub₀ (by norm_num),lt_div_iff₀ (zpow_pos (by norm_num) _)]
  calc r * 2 ^ (Nat.log2 r.den : Int) ≤ r * r.den := by gcongr
    _ = r.num.natAbs := by
      nth_rewrite 1 [quotient]
      exact div_mul_cancel₀ _ den.ne'
    _ < 2 ^ ((Nat.log2 r.num.natAbs : Int) + 1) := top

theorem roundHalfEven_le {r : ℚ} {n : Int} (below : r < n) : Number.roundHalfEven r ≤ n := by
  have floor : r.floor < n := by
    have least := Rat.floor_le r
    exact_mod_cast least.trans_lt below
  simp only [Number.roundHalfEven]
  split_ifs <;> omega

theorem roundHalfEven_nonneg {r : ℚ} (nonneg : 0 ≤ r) : 0 ≤ Number.roundHalfEven r := by
  have floor : 0 ≤ r.floor := Rat.le_floor_iff.mpr (by exact_mod_cast nonneg)
  exact floor.trans (floor_le_roundHalfEven r)

/-- A finite rounding is a significand of 53 bits at some scale. -/
theorem nearest_shape {r q : ℚ} (positive : 0 < r) (rounds : Number.nearest r = .fin q) :
    ∃ (m : Nat) (e : Int), m ≤ 2 ^ 53 ∧ q = m * 2 ^ e ∧ q < (2 ^ 1024 : Nat) := by
  have bound := below_leading positive
  have size : |r| = r := abs_of_pos positive
  simp only [Number.nearest,size,if_neg positive.ne',if_pos positive,power_two] at rounds
  generalize guessEq : (Nat.log2 r.num.natAbs : Int) - Nat.log2 r.den = guess at rounds bound
  generalize leadingEq : (if (2 : ℚ) ^ guess ≤ r then guess else guess - 1) = leading at rounds
  have below : r < 2 ^ (leading + 1) := by
    rw [← leadingEq]
    split_ifs with within
    · exact bound
    · rw [sub_add_cancel]
      exact not_le.mp within
  generalize scaleEq : max (leading - 52) (-1074) = scale at rounds
  have unit : (0 : ℚ) < 2 ^ scale := zpow_pos (by norm_num) _
  have significand : r / 2 ^ scale < ((2 ^ 53 : Nat) : Int) := by
    rw [div_lt_iff₀ unit]
    calc r < 2 ^ (leading + 1) := below
      _ ≤ 2 ^ (((53 : Nat) : Int) + scale) := zpow_le_zpow_right₀ (by norm_num) (by omega)
      _ = ((2 ^ 53 : Nat) : Int) * 2 ^ scale := by
        rw [zpow_add₀ (by norm_num),zpow_natCast]
        push_cast
        rfl
  have most := roundHalfEven_le significand
  have least := roundHalfEven_nonneg (div_pos positive unit).le
  obtain ⟨m,whole⟩ := Int.eq_ofNat_of_zero_le least
  split_ifs at rounds with above
  refine ⟨m,scale,by omega,?_,?_⟩
  · rw [← Number.fin.inj rounds,whole]
    rfl
  · rw [← Number.fin.inj rounds]
    exact not_le.mp above

theorem nearest_scaled {m e : Nat} (significand : m < 2 ^ 53) (finite : m * 2 ^ e < 2 ^ 1024) :
    Number.nearest ((m * 2 ^ e : Nat) : ℚ) = .fin ((m * 2 ^ e : Nat) : ℚ) := by
  rcases Nat.eq_zero_or_pos m with rfl | some
  · simp [Number.nearest]
  generalize size : m * 2 ^ e = n at finite
  have positive : 0 < n := by
    rw [← size]
    positivity
  have bits : Nat.log2 n ≤ e + 52 := by
    refine Nat.lt_succ_iff.mp ((Nat.log2_lt positive.ne').mpr ?_)
    calc n = m * 2 ^ e := size.symm
      _ < 2 ^ 53 * 2 ^ e := Nat.mul_lt_mul_of_pos_right significand (by positivity)
      _ = 2 ^ (e + 52).succ := by
        rw [← pow_add]
        congr 1
        omega
  obtain ⟨k,gap⟩ : ∃ k : Nat, (e : Int) = ((Nat.log2 n : Int) - 52) + k :=
    ⟨((e : Int) - ((Nat.log2 n : Int) - 52)).toNat,by omega⟩
  have scaled : (n : ℚ) / lastBit n = ((m * 2 ^ k : Nat) : Int) := by
    rw [div_eq_iff (lastBit_pos n).ne',← size]
    push_cast
    rw [← zpow_natCast (2 : ℚ) e,gap,zpow_add₀ (by norm_num),zpow_natCast,size,lastBit]
    ring
  have whole : (Number.roundHalfEven (n / lastBit n) : ℚ) * lastBit n = n := by
    rw [scaled,roundHalfEven_int,← scaled]
    exact div_mul_cancel₀ _ (lastBit_pos n).ne'
  have inside : ¬ ((2 ^ 1024 : Nat) : ℚ) ≤ n := by
    rw [not_le]
    exact_mod_cast finite
  rw [nearest_natCast positive,whole,if_neg inside]

/-- The floor of a binary64 value is one. -/
theorem nearest_floor {r q : ℚ} (nonneg : 0 ≤ r) (rounds : Number.nearest r = .fin q) :
    ∃ n : Nat, q.floor = n ∧ Number.nearest (n : ℚ) = .fin n := by
  rcases nonneg.eq_or_lt with rfl | positive
  · have zero : q = 0 := by simpa [Number.nearest] using rounds.symm
    exact ⟨0,by rw [zero]; rfl,by simp [Number.nearest]⟩
  obtain ⟨m,e,significand,rfl,finite⟩ := nearest_shape positive rounds
  rcases le_or_gt 0 e with up | down
  · obtain ⟨k,rfl⟩ := Int.eq_ofNat_of_zero_le up
    have whole : (m : ℚ) * 2 ^ (k : Int) = ((m * 2 ^ k : Nat) : ℚ) := by
      rw [zpow_natCast]
      push_cast
      rfl
    rw [whole] at finite ⊢
    refine ⟨m * 2 ^ k,by exact_mod_cast Rat.floor_intCast ((m * 2 ^ k : Nat) : Int),?_⟩
    have finite' : m * 2 ^ k < 2 ^ 1024 := by exact_mod_cast finite
    rcases significand.lt_or_eq with fewer | rfl
    · exact nearest_scaled fewer finite'
    · have halved : 2 ^ 53 * 2 ^ k = 2 ^ 52 * 2 ^ (k + 1) := by
        rw [pow_succ 2 k]
        omega
      rw [halved] at finite' ⊢
      exact nearest_scaled (by decide) finite'
  · have small : (m : ℚ) * 2 ^ e < ((2 ^ 53 : Nat) : Int) := by
      have fraction : (2 : ℚ) ^ e < 1 := zpow_lt_one_of_neg₀ (by norm_num) down
      have most : (m : ℚ) ≤ ((2 ^ 53 : Nat) : Int) := by exact_mod_cast significand
      rcases Nat.eq_zero_or_pos m with rfl | some
      · norm_num
      · have above : (0 : ℚ) < m := by exact_mod_cast some
        calc (m : ℚ) * 2 ^ e < m * 1 := by gcongr
          _ ≤ ((2 ^ 53 : Nat) : Int) := by rwa [mul_one]
    have nonneg : (0 : ℚ) ≤ m * 2 ^ e := mul_nonneg (Nat.cast_nonneg m) (zpow_pos (by norm_num) _).le
    have least : 0 ≤ ((m : ℚ) * 2 ^ e).floor := Rat.le_floor_iff.mpr (by exact_mod_cast nonneg)
    obtain ⟨n,floor⟩ := Int.eq_ofNat_of_zero_le least
    refine ⟨n,floor,nearest_exact ?_⟩
    have below := (Rat.floor_le ((m : ℚ) * 2 ^ e)).trans_lt small
    rw [floor] at below
    exact_mod_cast below

/-! ## Numerals -/

theorem digitsValue_append (a b : Str) : digitsValue (a ++ b) = digitsValue a * 10 ^ b.length + digitsValue b := by
  induction b using List.reverseRecOn with
  | nil => simp [digitsValue]
  | append_singleton before u ih =>
    rw [← List.append_assoc]
    simp only [digitsValue,List.foldl_append,List.foldl_cons,List.foldl_nil,List.length_append,List.length_singleton] at ih ⊢
    rw [ih,pow_succ]
    ring

theorem digitsValue_zeros (k : Nat) : digitsValue (List.replicate k 0x30) = 0 := by
  induction k with
  | zero => rfl
  | succ k ih =>
    rw [List.replicate_succ',digitsValue_append,ih]
    rfl

theorem takeWhile_number {w : Str} (rest : Str) (digits : ∀ u ∈ w, isDigit u = true) (stops : ∀ u ∈ rest.head?, isDigit u = false) :
    (w ++ rest).takeWhile isDigit = w ∧ (w ++ rest).dropWhile isDigit = rest := by
  rw [List.takeWhile_append_of_pos digits,List.dropWhile_append_of_pos digits]
  cases rest with
  | nil => simp
  | cons u tail => simp [stops u rfl]

/-- A numeral that starts with digits: its fraction and exponent are the rest. -/
theorem parseFloat_parts {w f left : Str} (rest : Str) (digits : ∀ u ∈ w, isDigit u = true) (filled : w ≠ [])
    (stops : ∀ u ∈ rest.head?, isDigit u = false) (fraction : fractionPart rest = (f,left)) :
    parseFloat (w ++ rest) = decimal false (w ++ f) (((exponentPart left).map Prod.fst).getD 0 - f.length) := by
  obtain ⟨taken,dropped⟩ := takeWhile_number rest digits stops
  obtain ⟨u,tail,rfl⟩ := List.exists_cons_of_ne_nil filled
  have digit := digits u (by simp)
  have space : (u::tail ++ rest).dropWhile isSpace = u::tail ++ rest := by simp [digit_not_space digit]
  have minus : u ≠ 0x2D := by rintro rfl; revert digit; decide
  have plus : u ≠ 0x2B := by rintro rfl; revert digit; decide
  have letter : u ≠ 0x49 := by rintro rfl; revert digit; decide
  have sign : signed true (u::tail ++ rest) = (false,u::tail ++ rest) := by simp [signed,minus,plus]
  have finite : (str "Infinity").isPrefixOf (u::tail ++ rest) = false := by
    simp [str,utf16,List.isPrefixOf,letter.symm]
  simp only [parseFloat,space,sign,finite,taken,dropped,fraction]
  simp

/-- Digits and how many of them, zeros after them included, are before the point. -/
def layout (ds : List Char) (n : Nat) : List Char :=
  if ds.length ≤ n ∧ n ≤ 21 then ds ++ List.replicate (n - ds.length) '0'
  else if n ≤ 21 then ds.take n ++ '.' :: ds.drop n
  else
    let mantissa := match ds with
      | first::second::rest => first :: '.' :: second::rest
      | short => short
    mantissa ++ 'e' :: '+' :: Nat.toDigits 10 (n - 1)

theorem power_ten (e : Int) : Number.power 10 e = (10 : ℚ) ^ e := power_eq 10 e

theorem exponentPart_plus (m : Nat) : exponentPart (0x65::0x2B::natText m) = some ((m : Int),[]) := by
  have digits := natText_digits m
  have sign : signed true (0x2B::natText m) = (false,natText m) := by simp [signed]
  obtain ⟨taken,dropped⟩ := takeWhile_digits digits
  simp only [exponentPart,sign,taken,dropped,natText_ne_nil,digitsValue_natText]
  simp

/-- A laid out numeral reads as its digits, scaled. -/
theorem parseFloat_layout {ds : List Char} {n : Nat} (digits : ∀ c ∈ ds, c.isDigit = true) (filled : ds ≠ []) (some : 0 < n) :
    parseFloat ((layout ds n).flatMap utf16) =
      Number.nearest (digitsValue (digitUnits ds) * 10 ^ ((n : Int) - ds.length)) := by
  have units := flatMap_digits digits
  have whole := digitUnits_digits digits
  have size : (digitUnits ds).length = ds.length := List.length_map _
  have present : digitUnits ds ≠ [] := by simpa [digitUnits] using filled
  unfold layout
  split_ifs with padded plain
  · have zero : utf16 '0' = [0x30] := by decide
    have zeros : (List.replicate (n - ds.length) '0').flatMap utf16 = List.replicate (n - ds.length) 0x30 := by
      rw [List.flatMap_replicate,zero]
      simp
    have all : ∀ u ∈ digitUnits ds ++ List.replicate (n - ds.length) 0x30, isDigit u = true := by
      intro u member
      rcases List.mem_append.mp member with own | pad
      · exact whole u own
      · rw [List.eq_of_mem_replicate pad]
        decide
    have read := parseFloat_parts [] all (by simp [present]) (by simp) rfl
    have empty : digitsValue [] = 0 := rfl
    rw [List.flatMap_append,units,zeros,← List.append_nil (_ ++ _),read,decimal,digitsValue_append,digitsValue_append,
      digitsValue_zeros,List.length_replicate,power_ten,empty]
    have scale : (n : Int) - ds.length = ((n - ds.length : Nat) : Int) := by omega
    rw [scale,zpow_natCast]
    simp [exponentPart]
  · have inside : n < ds.length := by omega
    have point : utf16 '.' = [0x2E] := by decide
    have before := flatMap_digits fun c member => digits c (List.mem_of_mem_take (i := n) member)
    have after := flatMap_digits fun c member => digits c (List.mem_of_mem_drop (i := n) member)
    have whole' := digitUnits_digits fun c member => digits c (List.mem_of_mem_take (i := n) member)
    obtain ⟨taken,dropped⟩ :=
      takeWhile_digits (digitUnits_digits fun c member => digits c (List.mem_of_mem_drop (i := n) member))
    have present' : digitUnits (ds.take n) ≠ [] := by
      simp only [digitUnits,ne_eq,List.map_eq_nil_iff,List.take_eq_nil_iff,filled,or_false]
      omega
    have fraction : fractionPart (0x2E::digitUnits (ds.drop n)) = (digitUnits (ds.drop n),[]) := by
      rw [fractionPart,if_pos rfl,taken,dropped]
    have read := parseFloat_parts (0x2E::digitUnits (ds.drop n)) whole' present' (by simp [isDigit]) fraction
    have joined : digitUnits (ds.take n) ++ digitUnits (ds.drop n) = digitUnits ds := by
      rw [digitUnits,digitUnits,← List.map_append,List.take_append_drop]
      rfl
    have length : (digitUnits (ds.drop n)).length = ds.length - n := by simp [digitUnits]
    have scale : (0 : Int) - ((ds.length - n : Nat) : Int) = (n : Int) - ds.length := by omega
    rw [List.flatMap_append,List.flatMap_cons,before,after,point,List.singleton_append,read,decimal,joined,length,
      power_ten,exponentPart,Option.map_none,Option.getD_none,scale]
    rfl
  · have dot : utf16 '.' = [0x2E] := by decide
    have letters : utf16 'e' = [0x65] ∧ utf16 '+' = [0x2B] := by decide
    have exponent : (Nat.toDigits 10 (n - 1)).flatMap utf16 = natText (n - 1) :=
      flatMap_digits fun c member => Nat.isDigit_of_mem_toDigits (by decide) (by decide) member
    have read := exponentPart_plus (n - 1)
    have value {w f left : Str} (parts : parseFloat (w ++ left) = decimal false (w ++ f) (((n - 1 : Nat) : Int) - f.length))
        (all : w ++ f = digitUnits ds) (one : w.length = 1) :
        parseFloat (w ++ left) = Number.nearest (digitsValue (digitUnits ds) * 10 ^ ((n : Int) - ds.length)) := by
      have lengths := congrArg List.length all
      rw [List.length_append,one,size] at lengths
      have scale : ((n - 1 : Nat) : Int) - f.length = (n : Int) - ds.length := by omega
      rw [parts,decimal,all,power_ten,scale]
      rfl
    cases ds with
    | nil => exact absurd rfl filled
    | cons c others =>
      have first := utf16_digit (digits c (by simp))
      have only : ∀ u ∈ [UInt16.ofNat c.toNat], isDigit u = true := by
        intro u member
        exact List.mem_singleton.mp member ▸ (digit_unit (digits c (by simp))).1
      cases others with
      | nil =>
        have fraction : fractionPart (0x65::0x2B::natText (n - 1)) = ([],0x65::0x2B::natText (n - 1)) := by
          simp [fractionPart]
        have parts := parseFloat_parts _ only (by simp) (by simp [isDigit]) fraction
        rw [read] at parts
        simp only [List.flatMap_append,List.flatMap_cons,List.flatMap_nil,first,letters.1,letters.2,exponent]
        exact value parts rfl rfl
      | cons d more =>
        have later := flatMap_digits fun e member => digits e (List.mem_cons_of_mem c member)
        have digits' := digitUnits_digits fun e member => digits e (List.mem_cons_of_mem c member)
        obtain ⟨taken,dropped⟩ := takeWhile_number (0x65::0x2B::natText (n - 1)) digits' (by simp [isDigit])
        have fraction : fractionPart (0x2E::(digitUnits (d::more) ++ 0x65::0x2B::natText (n - 1))) =
            (digitUnits (d::more),0x65::0x2B::natText (n - 1)) := by
          rw [fractionPart,if_pos rfl,taken,dropped]
        have parts := parseFloat_parts _ only (by simp) (by simp [isDigit]) fraction
        rw [read] at parts
        have text : (c :: '.' :: d::more ++ 'e' :: '+' :: Nat.toDigits 10 (n - 1)).flatMap utf16 =
            [UInt16.ofNat c.toNat] ++ 0x2E::(digitUnits (d::more) ++ 0x65::0x2B::natText (n - 1)) := by
          rw [← later]
          simp only [List.flatMap_append,List.flatMap_cons,first,dot,letters.1,letters.2,exponent]
          simp
        exact (congrArg parseFloat text).trans (value parts rfl rfl)

theorem digitsValue_toDigits (s : Nat) : digitsValue (digitUnits (Nat.toDigits 10 s)) = s := digitsValue_natText s

theorem numeral_reads {q : ℚ} {e : Int} {k s : Nat} (found : Number.numeral q e k = some s) :
    10 ^ (k - 1) ≤ s ∧ s < 10 ^ k ∧ Number.nearest (s * Number.power 10 (e - k)) = .fin q := by
  simp only [Number.numeral] at found
  split_ifs at found with low high
  · obtain rfl := Option.some.inj found
    simpa using (Bool.and_eq_true_iff.mp low).1
  · obtain rfl := Option.some.inj found
    simpa using high

theorem toDigits_length {s k : Nat} (least : 10 ^ (k - 1) ≤ s) (most : s < 10 ^ k) (some : 0 < k) :
    (Nat.toDigits 10 s).length = k := by
  have upper := (Nat.length_toDigits_le_iff (b := 10) (by decide) some).mpr most
  rcases Nat.lt_or_ge 1 k with more | one
  · have lower := (Nat.length_toDigits_le_iff (b := 10) (by decide) (k := k - 1) (n := s) (by omega)).not.mpr (by omega)
    omega
  · have positive := Nat.length_toDigits_pos (b := 10) (n := s)
    omega

/-- The layout of a value that is at least one. -/
theorem layout_eq (ds : List Char) {p : Nat} (some : 0 < p) :
    (if ds.length ≤ (p : Int) ∧ (p : Int) ≤ 21 then ds ++ List.replicate ((p : Int).toNat - ds.length) '0'
      else if 0 < (p : Int) ∧ (p : Int) ≤ 21 then ds.take (p : Int).toNat ++ '.' :: ds.drop (p : Int).toNat
      else if -6 < (p : Int) ∧ (p : Int) ≤ 0 then '0' :: '.' :: (List.replicate (-(p : Int)).toNat '0' ++ ds)
      else
        (match ds with
          | first::second::rest => first :: '.' :: second::rest
          | short => short) ++ 'e' :: (if (p : Int) < 1 then '-' else '+') :: Nat.toDigits 10 ((p : Int) - 1).natAbs) =
      layout ds p := by
  have whole : (p : Int).toNat = p := rfl
  have above : ((p : Int) - 1).natAbs = p - 1 := by omega
  have plus : ¬ (p : Int) < 1 := by omega
  have large : ¬ (-6 < (p : Int) ∧ (p : Int) ≤ 0) := by omega
  rw [whole,above,if_neg plus,if_neg large]
  unfold layout
  by_cases short : p ≤ 21
  · by_cases padded : ds.length ≤ p
    · rw [if_pos (by omega),if_pos ⟨padded,short⟩]
    · rw [if_neg (by omega),if_pos (by omega),if_neg (by omega),if_pos short]
  · rw [if_neg (by omega),if_neg (by omega),if_neg (by omega),if_neg short]

/-- The text of a whole binary64 number is a numeral that reads back as it. -/
theorem positiveText_layout {n : Nat} (positive : 0 < n) (held : Number.nearest (n : ℚ) = .fin n) :
    ∃ ds p, Number.positiveText (n : ℚ) = layout ds p ∧ (∀ c ∈ ds, c.isDigit = true) ∧ ds ≠ [] ∧ 0 < p ∧
      Number.nearest (digitsValue (digitUnits ds) * 10 ^ ((p : Int) - ds.length)) = .fin n := by
  have unit : (1 : ℚ) ≤ n := by exact_mod_cast positive
  have floor : (n : ℚ).floor.toNat = n := by
    have whole : (n : ℚ).floor = (n : Int) := by exact_mod_cast Rat.floor_intCast (n : Int)
    rw [whole]
    rfl
  have below : Number.decimalExponent (n : ℚ) = ((Nat.toDigits 10 n).length : Int) := by
    rw [Number.decimalExponent,if_pos unit,floor]
  have size := Nat.length_toDigits_pos (b := 10) (n := n)
  have digits (s : Nat) : ∀ c ∈ Nat.toDigits 10 s, c.isDigit = true :=
    fun c member => Nat.isDigit_of_mem_toDigits (by decide) (by decide) member
  simp only [Number.positiveText,below]
  by_cases power : Number.nearest (Number.power 10 ((Nat.toDigits 10 n).length : Int)) = .fin n
  · refine ⟨['1'],(Nat.toDigits 10 n).length + 1,?_,by simp,by simp,by omega,?_⟩
    · simp only [if_pos power]
      exact layout_eq ['1'] (Nat.succ_pos _)
    · have one : digitsValue (digitUnits ['1']) = 1 := by decide
      rw [power_ten] at power
      rw [one]
      simpa using power
  · simp only [if_neg power]
    cases found : (List.range 17).findSome? fun i => Number.numeral n ((Nat.toDigits 10 n).length : Int) (i + 1) with
    | none =>
      refine ⟨Nat.toDigits 10 n,(Nat.toDigits 10 n).length,?_,digits n,by simp,size,?_⟩
      · rw [Option.getD_none,floor]
        exact layout_eq _ size
      · rw [digitsValue_toDigits,sub_self,zpow_zero,mul_one]
        exact held
    | some s =>
      obtain ⟨i,_,read⟩ := List.exists_of_findSome?_eq_some found
      obtain ⟨least,most,reads⟩ := numeral_reads read
      have length := toDigits_length least most (Nat.succ_pos i)
      refine ⟨Nat.toDigits 10 s,(Nat.toDigits 10 n).length,?_,digits s,by simp,size,?_⟩
      · rw [Option.getD_some]
        exact layout_eq _ size
      · rw [digitsValue_toDigits,length,← power_ten]
        exact reads

/-- Whole binary64 numbers and the infinite one, as far as `parseFloat` is to tell them apart. -/
inductive Whole : Number → Prop where
  | nan : Whole .nan
  | posInf : Whole .posInf
  | fin {n : Nat} (held : Number.nearest (n : ℚ) = .fin n) : Whole (.fin n)

theorem parseFloat_text {x : Number} (whole : Whole x) : parseFloat (str x.text) = x := by
  cases whole with
  | nan => decide +kernel
  | posInf => decide +kernel
  | @fin n held =>
    rcases Nat.eq_zero_or_pos n with rfl | positive
    · decide +kernel
    · obtain ⟨ds,p,text,digits,filled,some,reads⟩ := positiveText_layout positive held
      have above : (0 : ℚ) < n := by exact_mod_cast positive
      have printed : str (Number.fin n).text = (layout ds p).flatMap utf16 := by
        rw [str,Number.text,if_neg above.ne',if_pos above,text,String.toList_ofList]
      rw [printed,parseFloat_layout digits filled some,reads]

/-- No two whole numbers are printed alike. -/
theorem text_injective {x y : Number} (whole : Whole x) (whole' : Whole y) (same : str x.text = str y.text) : x = y := by
  rw [← parseFloat_text whole,same,parseFloat_text whole']

theorem layout_chars {ds : List Char} {n : Nat} (digits : ∀ c ∈ ds, c.isDigit = true) :
    ∀ c ∈ layout ds n, c.isDigit = true ∨ c ∈ ['.','e','+'] := by
  intro c member
  unfold layout at member
  split_ifs at member
  · rcases List.mem_append.mp member with own | zero
    · exact Or.inl (digits c own)
    · exact Or.inl (by rw [List.eq_of_mem_replicate zero]; decide)
  · rcases List.mem_append.mp member with before | rest
    · exact Or.inl (digits c (List.mem_of_mem_take before))
    · rcases List.mem_cons.mp rest with rfl | after
      · exact Or.inr (by decide)
      · exact Or.inl (digits c (List.mem_of_mem_drop after))
  · have exponent (member : c ∈ 'e' :: '+' :: Nat.toDigits 10 (n - 1)) : c.isDigit = true ∨ c ∈ ['.','e','+'] := by
      rcases List.mem_cons.mp member with rfl | rest
      · exact Or.inr (by decide)
      · rcases List.mem_cons.mp rest with rfl | digit
        · exact Or.inr (by decide)
        · exact Or.inl (Nat.isDigit_of_mem_toDigits (by decide) (by decide) digit)
    rcases List.mem_append.mp member with mantissa | rest
    · split at mantissa
      · next first second others =>
        rcases List.mem_cons.mp mantissa with rfl | rest
        · exact Or.inl (digits _ (by simp))
        · rcases List.mem_cons.mp rest with rfl | later
          · exact Or.inr (by decide)
          · exact Or.inl (digits _ (List.mem_cons_of_mem _ later))
      · exact Or.inl (digits c mantissa)
    · exact exponent rest

/-- The text of a whole number has no colon. -/
theorem text_colon {x : Number} (whole : Whole x) : 0x3A ∉ str x.text := by
  cases whole with
  | nan => decide
  | posInf => decide
  | @fin n held =>
    rcases Nat.eq_zero_or_pos n with rfl | positive
    · decide
    · obtain ⟨ds,p,text,digits,_⟩ := positiveText_layout positive held
      have above : (0 : ℚ) < n := by exact_mod_cast positive
      rw [str,Number.text,if_neg above.ne',if_pos above,text,String.toList_ofList]
      intro colon
      obtain ⟨c,member,unit⟩ := List.mem_flatMap.mp colon
      rcases layout_chars digits c member with digit | mark
      · rw [utf16_digit digit] at unit
        have own := (digit_unit digit).1
        rw [← List.mem_singleton.mp unit] at own
        revert own
        decide
      · revert unit
        simp only [List.mem_cons,List.not_mem_nil,or_false] at mark
        rcases mark with rfl | rfl | rfl <;> decide

theorem nearest_nonneg {r : ℚ} (nonneg : 0 ≤ r) : Number.nearest r = .posInf ∨ ∃ q, 0 ≤ q ∧ Number.nearest r = .fin q := by
  rcases nonneg.eq_or_lt with rfl | positive
  · exact Or.inr ⟨0,le_refl _,by simp [Number.nearest]⟩
  cases rounds : Number.nearest r with
  | posInf => exact Or.inl rfl
  | fin q =>
    obtain ⟨m,e,_,rfl,_⟩ := nearest_shape positive rounds
    exact Or.inr ⟨_,mul_nonneg (Nat.cast_nonneg m) (zpow_pos (by norm_num) _).le,rfl⟩
  | nan =>
    simp only [Number.nearest,if_neg positive.ne',if_pos positive] at rounds
    split_ifs at rounds
  | negInf =>
    simp only [Number.nearest,if_neg positive.ne',if_pos positive] at rounds
    split_ifs at rounds

theorem nearest_neg (q : ℚ) : Number.nearest (-q) = (Number.nearest q).neg := by
  rcases lt_trichotomy q 0 with below | rfl | above
  · have other : 0 < -q := neg_pos.mpr below
    simp only [Number.nearest,abs_neg,if_neg below.ne,if_neg other.ne',if_pos other,if_neg below.not_gt]
    split_ifs <;> simp [Number.neg]
  · simp [Number.nearest,Number.neg]
  · have other : ¬ 0 < -q := by
      rw [neg_pos]
      exact above.not_gt
    simp only [Number.nearest,abs_neg,if_neg above.ne',if_neg (neg_ne_zero.mpr above.ne'),if_neg other,if_pos above]
    split_ifs <;> rfl

/-- From 2^53 on a whole number is held as one that is no less than that. -/
theorem nearest_large {n : Nat} (large : 2 ^ 53 ≤ n) :
    Number.nearest (n : ℚ) = .posInf ∨ ∃ m : Nat, 2 ^ 53 ≤ m ∧ Number.nearest (n : ℚ) = .fin m := by
  have bounded := le_nearest large
  have positive : 0 < n := lt_of_lt_of_le (by decide) large
  have bits : 53 ≤ Nat.log2 n := (Nat.le_log2 positive.ne').mpr large
  obtain ⟨k,unit⟩ : ∃ k : Nat, (Nat.log2 n : Int) - 52 = k := ⟨Nat.log2 n - 52,by omega⟩
  have nonneg : 0 ≤ Number.roundHalfEven (n / lastBit n) :=
    roundHalfEven_nonneg (div_nonneg (Nat.cast_nonneg n) (lastBit_pos n).le)
  obtain ⟨r,rounded⟩ := Int.eq_ofNat_of_zero_le nonneg
  rw [nearest_natCast positive,rounded,lastBit,unit,zpow_natCast] at bounded ⊢
  split_ifs at bounded ⊢
  · exact Or.inl rfl
  · refine Or.inr ⟨r * 2 ^ k,?_,?_⟩
    · have size := (Number.fin_le_fin _ _).mp bounded
      exact_mod_cast size
    · push_cast
      rfl

theorem div_fin (a : ℚ) {b : ℚ} (divisor : b ≠ 0) : (Number.fin a).div (.fin b) = Number.nearest (a / b) := if_neg divisor

theorem floor_whole {r : ℚ} (nonneg : 0 ≤ r) : Whole (Number.nearest r).floor := by
  rcases nearest_nonneg nonneg with inf | ⟨q,_,rounds⟩
  · rw [inf]
    exact .posInf
  · obtain ⟨n,floor,held⟩ := nearest_floor nonneg rounds
    rw [rounds,Number.floor,floor]
    exact .fin held

end FipsShield.Numeral
