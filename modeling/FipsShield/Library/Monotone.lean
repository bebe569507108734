import FipsShield.Library.Number
import Mathlib.Tactic.Linarith

/-! Monotone arithmetic on Number values: the operations keep one value at least another,
or make the larger one a NaN, of which no comparison holds. -/
namespace FipsShield.Number

theorem le_trans {a b c : Number} (first : a ≤ b) (second : b ≤ c) : a ≤ c := by
  change atMost a b = true at first
  change atMost b c = true at second
  change atMost a c = true
  cases a <;> cases b <;> cases c <;> simp_all [atMost]
  exact first.trans second

theorem lt_of_le_of_lt {a b c : Number} (first : a ≤ b) (second : b < c) : a < c := by
  change atMost a b = true at first
  change less b c = true at second
  change less a c = true
  cases a <;> cases b <;> cases c <;> simp_all [atMost,less]
  exact first.trans_lt second

/-- A shift that keeps the larger of two values below a bound keeps the other below any
higher one. -/
theorem fin_add_le {a b c d : ℚ} {x : Number} (smaller : a ≤ b) (below : Number.fin b + x < .fin c)
    (higher : c ≤ d) : Number.fin a + x ≤ .fin d := by
  cases x with
  | nan => cases below
  | negInf => rfl
  | posInf => cases below
  | fin q =>
    have bound : b + q < c := of_decide_eq_true below
    have within : a + q ≤ d := by linarith
    exact decide_eq_true within

/-- A value that is at least another, or that no comparison holds of. -/
def Covers (a b : Number) : Prop := b = .nan ∨ a ≤ b

theorem Covers.not_lt {a b c : Number} (covers : Covers a b) (enough : ¬ a < c) : ¬ b < c := by
  rcases covers with rfl | larger
  · exact Bool.false_ne_true
  · exact fun short => enough (lt_of_le_of_lt larger short)

theorem fin_mul_posInf {e : ℚ} (forward : 0 ≤ e) :
    (Number.fin e * .posInf = .nan ∧ e = 0) ∨ Number.fin e * .posInf = .posInf := by
  change (mul (.fin e) .posInf = .nan ∧ e = 0) ∨ mul (.fin e) .posInf = .posInf
  rcases forward.eq_or_lt with none | some
  · refine Or.inl ⟨?_,none.symm⟩
    simp [mul,sign,← none]
  · exact Or.inr (by simp [mul,sign,some])

theorem fin_mul_bounds {e : ℚ} (forward : 0 ≤ e) {r : Number} (nonneg : 0 ≤ r) :
    Number.fin e * r ≠ .negInf ∧ (Number.fin e * r = .posInf → r = .posInf) := by
  cases r with
  | nan => cases nonneg
  | negInf => cases nonneg
  | fin x =>
    have product : Number.fin e * .fin x = .fin (e * x) := rfl
    rw [product]
    exact ⟨by simp,by simp⟩
  | posInf =>
    rcases fin_mul_posInf forward with ⟨none,_⟩ | all
    · rw [none]
      exact ⟨by simp,fun _ => rfl⟩
    · rw [all]
      exact ⟨by simp,fun _ => rfl⟩

theorem Covers.mul {e : ℚ} (forward : 0 ≤ e) {r s : Number} (nonneg : 0 ≤ r) (larger : r ≤ s) :
    Covers (.fin e * r) (.fin e * s) := by
  cases s with
  | nan => cases r <;> cases larger
  | negInf =>
    have below := le_trans nonneg larger
    cases below
  | fin y =>
    cases r with
    | nan => cases larger
    | negInf => cases nonneg
    | posInf => cases larger
    | fin x =>
      apply Or.inr
      apply (fin_le_fin _ _).mpr
      exact mul_le_mul_of_nonneg_left ((fin_le_fin x y).mp larger) forward
  | posInf =>
    rcases fin_mul_posInf forward with ⟨none,_⟩ | all
    · exact Or.inl none
    · rw [all]
      cases r with
      | nan => cases larger
      | negInf => cases nonneg
      | fin x => exact Or.inr rfl
      | posInf =>
        rw [all]
        exact Or.inr rfl

theorem Covers.add {a b x y : Number} (first : Covers a b) (second : Covers x y)
    (apart : a ≠ .negInf ∨ x ≠ .posInf) (forward : x ≠ .negInf) : Covers (a + x) (b + y) := by
  change Number.add b y = .nan ∨ atMost (Number.add a x) (Number.add b y) = true
  rcases first with rfl | first
  · exact Or.inl (by cases y <;> rfl)
  · rcases second with rfl | second
    · exact Or.inl (by cases b <;> rfl)
    · change atMost a b = true at first
      change atMost x y = true at second
      cases a <;> cases b <;> cases x <;> cases y <;> simp_all [atMost,Number.add]
      exact add_le_add first second

theorem min_le_left {c a : Number} (numbers : c ≠ .nan ∧ a ≠ .nan) : Number.min c a ≤ c := by
  change atMost (Number.min c a) c = true
  rw [Number.min,if_neg (by tauto)]
  split_ifs with less
  · change Number.less a c = true at less
    cases a <;> cases c <;> simp_all [atMost,Number.less]
    exact less.le
  · cases c <;> simp_all [atMost]

theorem min_le_right {c a : Number} (numbers : c ≠ .nan ∧ a ≠ .nan) : Number.min c a ≤ a := by
  change atMost (Number.min c a) a = true
  rw [Number.min,if_neg (by tauto)]
  split_ifs with less
  · cases a <;> simp_all [atMost]
  · change ¬ Number.less a c = true at less
    cases a <;> cases c <;> simp_all [atMost,Number.less]

theorem ne_nan_of_le {a b : Number} (larger : a ≤ b) : a ≠ .nan ∧ b ≠ .nan := by
  constructor
  · rintro rfl
    cases b <;> cases larger
  · rintro rfl
    cases a <;> cases larger

theorem Covers.min {a b c d : Number} (larger : c ≤ d) (covers : Covers a b) :
    Covers (Number.min c a) (Number.min d b) := by
  rcases covers with rfl | inside
  · exact Or.inl (if_pos (Or.inr rfl))
  · obtain ⟨left,right⟩ := ne_nan_of_le larger
    obtain ⟨one,other⟩ := ne_nan_of_le inside
    apply Or.inr
    have either : Number.min d b = b ∨ Number.min d b = d := by
      rw [Number.min,if_neg (by tauto)]
      split_ifs
      · exact Or.inl rfl
      · exact Or.inr rfl
    rcases either with same | same <;> rw [same]
    · exact le_trans (min_le_right ⟨left,one⟩) inside
    · exact le_trans (min_le_left ⟨left,one⟩) larger

theorem Covers.sub_one {a b : Number} (covers : Covers a b) : Covers (a - 1) (b - 1) := by
  change Number.add b (neg 1) = .nan ∨ atMost (Number.add a (neg 1)) (Number.add b (neg 1)) = true
  rcases covers with rfl | larger
  · exact Or.inl rfl
  · change atMost a b = true at larger
    have one : neg 1 = .fin (-1) := rfl
    rw [one]
    cases a <;> cases b <;> simp_all [atMost,Number.add]

end FipsShield.Number
