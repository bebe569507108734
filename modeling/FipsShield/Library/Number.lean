import Mathlib.Data.Rat.Defs
import Mathlib.Algebra.Order.Ring.Rat
import Mathlib.Data.Nat.Cast.Order.Ring

/-! ECMAScript Number values over exact rationals. A value read from text is
rounded to binary64 as the language requires; arithmetic on values is exact.
The two zeros are one value. -/
namespace FipsShield

inductive Number where
  | nan
  | negInf
  | fin (value : ℚ)
  | posInf
  deriving DecidableEq

namespace Number

instance : NatCast Number := ⟨fun n => .fin n⟩
instance : IntCast Number := ⟨fun n => .fin n⟩
instance (n : Nat) : OfNat Number n := ⟨.fin n⟩

/-- The operator `<`, false whenever an operand is NaN. -/
def less : Number → Number → Bool
  | .fin a, .fin b => a < b
  | .negInf, .fin _ => true
  | .negInf, .posInf => true
  | .fin _, .posInf => true
  | _, _ => false

/-- The operator `<=`, false whenever an operand is NaN. -/
def atMost : Number → Number → Bool
  | .fin a, .fin b => a ≤ b
  | .negInf, .negInf => true
  | .negInf, .fin _ => true
  | .negInf, .posInf => true
  | .fin _, .posInf => true
  | .posInf, .posInf => true
  | _, _ => false

instance : LT Number := ⟨fun a b => less a b = true⟩
instance : LE Number := ⟨fun a b => atMost a b = true⟩
instance (a b : Number) : Decidable (a < b) := inferInstanceAs (Decidable (less a b = true))
instance (a b : Number) : Decidable (a ≤ b) := inferInstanceAs (Decidable (atMost a b = true))

def add : Number → Number → Number
  | .fin a, .fin b => .fin (a + b)
  | .nan, _ | _, .nan => .nan
  | .posInf, .negInf | .negInf, .posInf => .nan
  | .posInf, _ | _, .posInf => .posInf
  | .negInf, _ | _, .negInf => .negInf

def neg : Number → Number
  | .nan => .nan
  | .negInf => .posInf
  | .fin a => .fin (-a)
  | .posInf => .negInf

/-- Sign of a value, zero for zero and NaN: what decides a product with an infinity. -/
def sign : Number → Int
  | .nan => 0
  | .negInf => -1
  | .fin a => if 0 < a then 1 else if a < 0 then -1 else 0
  | .posInf => 1

def mul : Number → Number → Number
  | .fin a, .fin b => .fin (a * b)
  | .nan, _ | _, .nan => .nan
  | a, b => if sign a * sign b = 0 then .nan else if 0 < sign a * sign b then .posInf else .negInf

instance : Add Number := ⟨add⟩
instance : Neg Number := ⟨neg⟩
instance : Sub Number := ⟨fun a b => add a (neg b)⟩
instance : Mul Number := ⟨mul⟩

def min (a b : Number) : Number :=
  if a = .nan ∨ b = .nan then .nan else if b < a then b else a

def ceil : Number → Number
  | .fin a => .fin a.ceil
  | a => a

def floor : Number → Number
  | .fin a => .fin a.floor
  | a => a

def power (base : Nat) (exponent : Int) : ℚ :=
  if 0 ≤ exponent then (base ^ exponent.toNat : Nat) else 1 / (base ^ (-exponent).toNat : Nat)

def roundHalfEven (q : ℚ) : Int :=
  let below := q.floor
  let part := q - below
  if part < 1 / 2 then below
  else if 1 / 2 < part then below + 1
  else if below % 2 = 0 then below else below + 1

/-- The binary64 value nearest to a rational, ties to even, overflow to infinity. -/
def nearest (q : ℚ) : Number :=
  if q = 0 then .fin 0
  else
    let size := |q|
    let guess : Int := Nat.log2 size.num.natAbs - Nat.log2 size.den
    let leading := if power 2 guess ≤ size then guess else guess - 1
    let unit := power 2 (max (leading - 52) (-1074))
    let rounded := roundHalfEven (size / unit) * unit
    if (2 ^ 1024 : Nat) ≤ rounded then (if 0 < q then .posInf else .negInf)
    else .fin (if 0 < q then rounded else -rounded)

/-- `a / b`, rounded; no zero is negative here. -/
def div : Number → Number → Number
  | .nan, _ | _, .nan => .nan
  | .fin a, .fin b =>
    if b = 0 then (if a = 0 then .nan else if 0 < a then .posInf else .negInf) else nearest (a / b)
  | .fin _, _ => .fin 0
  | a, .fin b => if 0 ≤ b then a else neg a
  | _, _ => .nan

/-- The exponent `n` with `10 ^ (n - 1) ≤ q < 10 ^ n`, for a positive `q`. -/
def decimalExponent (q : ℚ) : Int :=
  if 1 ≤ q then (Nat.toDigits 10 q.floor.toNat).length
  else 1 - (Nat.toDigits 10 ((1 / q).ceil.toNat - 1)).length

/-- A numeral of `k` digits that rounds to `q`, the closer one when two do. -/
def numeral (q : ℚ) (exponent : Int) (k : Nat) : Option Nat :=
  let unit := power 10 (exponent - k)
  let low := (q / unit).floor.toNat
  let fits (s : Nat) : Bool := 10 ^ (k - 1) ≤ s ∧ s < 10 ^ k ∧ nearest (s * unit) = .fin q
  if fits low && (!fits (low + 1) || q / unit - low ≤ 1 / 2) then some low
  else if fits (low + 1) then some (low + 1) else none

/-- `Number::toString` of a positive value: the shortest numeral that reads back
as the value, laid out as the language prescribes. -/
def positiveText (q : ℚ) : List Char :=
  let below := decimalExponent q
  let shortest := (List.range 17).findSome? fun i => numeral q below (i + 1)
  -- A value just under a power of ten may read back from the power itself.
  let power10 := nearest (power 10 below) = .fin q
  let n := if power10 then below + 1 else below
  let ds := if power10 then ['1'] else Nat.toDigits 10 (shortest.getD q.floor.toNat)
  let k := ds.length
  if k ≤ n ∧ n ≤ 21 then ds ++ List.replicate (n.toNat - k) '0'
  else if 0 < n ∧ n ≤ 21 then ds.take n.toNat ++ '.' :: ds.drop n.toNat
  else if -6 < n ∧ n ≤ 0 then '0' :: '.' :: (List.replicate (-n).toNat '0' ++ ds)
  else
    let mantissa := match ds with
      | first::second::rest => first :: '.' :: second::rest
      | short => short
    mantissa ++ 'e' :: (if n < 1 then '-' else '+') :: Nat.toDigits 10 (n - 1).natAbs

/-- `String(value)` for a Number. -/
def text : Number → String
  | .nan => "NaN"
  | .negInf => "-Infinity"
  | .posInf => "Infinity"
  | .fin q =>
    if q = 0 then "0"
    else if 0 < q then String.ofList (positiveText q)
    else String.ofList ('-' :: positiveText (-q))

theorem fin_lt_fin (a b : ℚ) : (Number.fin a < .fin b) ↔ a < b := by
  change less (.fin a) (.fin b) = true ↔ a < b
  simp [less]

theorem fin_le_fin (a b : ℚ) : (Number.fin a ≤ .fin b) ↔ a ≤ b := by
  change atMost (.fin a) (.fin b) = true ↔ a ≤ b
  simp [atMost]

theorem natCast_inj (a b : Nat) : ((a : Number) = (b : Number)) ↔ a = b := by
  change Number.fin a = Number.fin b ↔ a = b
  rw [fin.injEq,Nat.cast_inj]

@[simp] theorem natCast_lt (a b : Nat) : ((a : Number) < (b : Number)) ↔ a < b :=
  (fin_lt_fin a b).trans Nat.cast_lt

theorem min_fin (a b : ℚ) : Number.min (.fin a) (.fin b) = .fin (Min.min a b) := by
  simp only [Number.min,reduceCtorEq,or_self,if_false,fin_lt_fin]
  split_ifs with less
  · rw [min_eq_right less.le]
  · rw [min_eq_left (le_of_not_gt less)]

theorem fin_sub_fin (a b : ℚ) : Number.fin a - .fin b = .fin (a - b) := by
  rw [sub_eq_add_neg]
  rfl

/-- Away from NaN the two comparisons exclude each other. -/
theorem not_lt_iff_le (a : Nat) (b : Number) (number : b ≠ .nan) :
    ¬ (b < (a : Number)) ↔ (a : Number) ≤ b := by
  change ¬ less b (.fin a) = true ↔ atMost (.fin a) b = true
  cases b <;> simp_all [less,atMost]

theorem natCast_le_trans {a b : Nat} {c : Number} (fewer : a ≤ b) (bounded : (b : Number) ≤ c) :
    (a : Number) ≤ c := by
  cases c with
  | nan => exact bounded
  | negInf => exact bounded
  | posInf => rfl
  | fin q =>
    have inside : (b : ℚ) ≤ q := (fin_le_fin _ _).mp bounded
    apply (fin_le_fin _ _).mpr
    exact le_trans (by exact_mod_cast fewer) inside

theorem lt_of_natCast_le {a b : Nat} {c : Number} (fewer : a < b) (bounded : (b : Number) ≤ c) :
    (a : Number) < c := by
  cases c with
  | nan => exact bounded
  | negInf => exact bounded
  | posInf => rfl
  | fin q =>
    have inside : (b : ℚ) ≤ q := (fin_le_fin _ _).mp bounded
    apply (fin_lt_fin _ _).mpr
    exact lt_of_lt_of_le (by exact_mod_cast fewer) inside

theorem lt_natCast_trans {a b : Nat} {c : Number} (below : c < (a : Number)) (more : a ≤ b) : c < (b : Number) := by
  cases c with
  | nan => exact below
  | negInf => rfl
  | posInf => exact below
  | fin q =>
    have inside : q < (a : ℚ) := (fin_lt_fin _ _).mp below
    apply (fin_lt_fin _ _).mpr
    exact lt_of_lt_of_le inside (by exact_mod_cast more)

theorem natCast_lt_of_le {a c : Nat} {b : Number} (low : (a : Number) ≤ b) (high : b < (c : Number)) :
    a < c := by
  cases b with
  | nan => cases low
  | negInf => cases low
  | posInf => cases high
  | fin q =>
    have below : (a : ℚ) ≤ q := (fin_le_fin _ _).mp low
    have above : q < (c : ℚ) := (fin_lt_fin _ _).mp high
    exact_mod_cast below.trans_lt above

theorem succ_le_ceil {n : Nat} {b : Number} (number : b ≠ .nan) (below : ¬ b ≤ (n : Number)) :
    ((n + 1 : Nat) : Number) ≤ b.ceil := by
  cases b with
  | nan => contradiction
  | negInf => exact absurd rfl below
  | posInf => rfl
  | fin a =>
    have less : ((n : Int) : ℚ) < a := by simpa [fin_le_fin] using (fin_le_fin a n).not.mp below
    have room : (n : Int) + 1 ≤ a.ceil := Rat.lt_ceil_iff.mpr less
    apply (fin_le_fin _ _).mpr
    exact_mod_cast room

theorem zero_le_ceil {b : Number} (bound : 0 ≤ b) : ((0 : Nat) : Number) ≤ b.ceil := by
  cases b with
  | nan => exact bound
  | negInf => exact bound
  | posInf => rfl
  | fin a =>
    have least : (0 : ℚ) ≤ a := (fin_le_fin 0 a).mp bound
    apply (fin_le_fin _ _).mpr
    exact_mod_cast least.trans Rat.le_ceil

example : nearest (1 / 10) = .fin (3602879701896397 / 36028797018963968) := by decide +kernel
example : (nearest (1 / 10)).text = "0.1" := by decide +kernel

end Number
end FipsShield
