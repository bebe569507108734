import Mathlib.Algebra.BigOperators.Group.List.Basic
import Mathlib.Data.Nat.Cast.Order.Ring
import Mathlib.Algebra.Order.Ring.Int
import Mathlib.Tactic.Ring

/-! Elapsed time counted in whole units: a clock that is read at some times and set, at each
reading a unit or more after the last, to the reading itself. -/
namespace FipsShield.Truncation

/-- The spans between one setting of the clock and the next. -/
def spans (unit since : Nat) : List Nat → List Nat
  | [] => []
  | now::rest => if now - since < unit then spans unit since rest else (now - since)::spans unit now rest

def wholes (unit : Nat) (spans : List Nat) : Nat := (spans.map (· / unit)).sum

/-- What the whole units leave of the spans. -/
def remainders (unit : Nat) (spans : List Nat) : Nat := (spans.map (· % unit)).sum

variable {unit since now : Nat} {rest : List Nat}

theorem spans_early (early : now - since < unit) : spans unit since (now::rest) = spans unit since rest := if_pos early

theorem spans_due (due : unit ≤ now - since) : spans unit since (now::rest) = (now - since)::spans unit now rest :=
  if_neg (Nat.not_lt.mpr due)

@[simp] theorem wholes_nil (unit : Nat) : wholes unit [] = 0 := rfl

@[simp] theorem wholes_cons (unit span : Nat) (spans : List Nat) :
    wholes unit (span::spans) = span / unit + wholes unit spans := rfl

@[simp] theorem remainders_cons (unit span : Nat) (spans : List Nat) :
    remainders unit (span::spans) = span % unit + remainders unit spans := rfl

theorem sum_parts (unit : Nat) (spans : List Nat) : spans.sum = unit * wholes unit spans + remainders unit spans := by
  induction spans with
  | nil => rfl
  | cons span rest ih =>
    have parts := Nat.div_add_mod span unit
    rw [List.sum_cons,wholes_cons,remainders_cons,ih,Nat.mul_add]
    omega

/-- Units counted span by span fall behind those of the whole time by what the remainders make up. -/
theorem sum_div (positive : 0 < unit) (spans : List Nat) :
    spans.sum / unit = wholes unit spans + remainders unit spans / unit := by
  rw [sum_parts unit,Nat.mul_add_div positive]

/-- What is paid for the units of each span is within the pay of one unit of that for the whole
time, exactly where the remainders make up less than two. -/
theorem within_unit (positive : 0 < unit) {rate : Nat} (paid : 0 < rate) (spans : List Nat) :
    |(rate * wholes unit spans : Int) - rate * (spans.sum / unit : Nat)| ≤ rate ↔ remainders unit spans < 2 * unit := by
  have behind : (rate * wholes unit spans : Int) - rate * (spans.sum / unit : Nat) =
      -((rate * (remainders unit spans / unit) : Nat) : Int) := by
    rw [sum_div positive,Nat.cast_add,Nat.cast_mul]
    ring
  rw [behind,abs_neg,Nat.abs_cast,Nat.cast_le]
  calc rate * (remainders unit spans / unit) ≤ rate
      ↔ rate * (remainders unit spans / unit) ≤ rate * 1 := by rw [Nat.mul_one]
    _ ↔ remainders unit spans / unit ≤ 1 := Nat.mul_le_mul_left_iff paid
    _ ↔ remainders unit spans < 2 * unit := by rw [← Nat.lt_succ_iff,Nat.div_lt_iff_lt_mul positive]

end FipsShield.Truncation
