import FipsShield.Library.Text

/-! The percent encoding of form data: what a text of escapes stands for, byte by byte, and the
texts that stand for given bytes. -/
namespace FipsShield.Percent

/-- The value of a hexadecimal digit of either case. -/
def hexDigit (u : UInt8) : Option Nat :=
  if 0x30 ≤ u ∧ u ≤ 0x39 then some (u.toNat - 0x30)
  else if 0x41 ≤ u ∧ u ≤ 0x46 then some (u.toNat - 0x37)
  else if 0x61 ≤ u ∧ u ≤ 0x66 then some (u.toNat - 0x57)
  else none

def hexByte (x y : UInt8) : Option UInt8 := do
  return UInt8.ofNat ((← hexDigit x) * 16 + (← hexDigit y))

/-- The byte that a text starts with an escape of. -/
def escapedByte : Bytes → Option UInt8
  | 0x25::x::y::_ => hexByte x y
  | _ => none

/-- Escapes are the bytes they denote, and every other plus sign a space. -/
def unescaped (b : Bytes) : Bytes :=
  match b with
  | [] => []
  | c::rest =>
    match escapedByte (c::rest) with
    | some v => v::unescaped (rest.drop 2)
    | none => (if c = 0x2B then 0x20 else c)::unescaped rest
termination_by b.length
decreasing_by
  all_goals
    simp only [List.length_drop,List.length_cons]
    omega

/-- A text that encodes some bytes: each by an escape, a space by a plus sign, or as it is. -/
inductive Encodes : Bytes → Bytes → Prop where
  | nil : Encodes [] []
  | escaped {v x y : UInt8} {plain text : Bytes} (digits : hexByte x y = some v) (rest : Encodes plain text) :
      Encodes (v::plain) (0x25::x::y::text)
  | space {plain text : Bytes} (rest : Encodes plain text) : Encodes (0x20::plain) (0x2B::text)
  | plain {c : UInt8} {plain text : Bytes} (percent : c ≠ 0x25) (plus : c ≠ 0x2B) (rest : Encodes plain text) :
      Encodes (c::plain) (c::text)

@[simp] theorem unescaped_nil : unescaped [] = [] := by rw [unescaped]

theorem unescaped_escape {x y v : UInt8} (digits : hexByte x y = some v) (rest : Bytes) :
    unescaped (0x25::x::y::rest) = v::unescaped rest := by
  rw [unescaped,escapedByte,digits]
  rfl

theorem unescaped_other {c : UInt8} {rest : Bytes} (none : escapedByte (c::rest) = none) :
    unescaped (c::rest) = (if c = 0x2B then 0x20 else c)::unescaped rest := by
  rw [unescaped,none]

theorem escape_percent {c : UInt8} (other : c ≠ 0x25) (rest : Bytes) : escapedByte (c::rest) = none := by
  unfold escapedByte
  split
  · next same => exact absurd (List.cons.inj same).1 other
  · rfl

theorem escape_some {c v : UInt8} {rest : Bytes} (found : escapedByte (c::rest) = some v) :
    c = 0x25 ∧ ∃ x y later, rest = x::y::later ∧ hexByte x y = some v := by
  unfold escapedByte at found
  split at found
  · next x y later same =>
    obtain ⟨rfl,rfl⟩ := List.cons.inj same
    exact ⟨rfl,x,y,later,rfl,found⟩
  · cases found

theorem hexByte_some {x y v : UInt8} (digits : hexByte x y = some v) :
    ∃ a b, hexDigit x = some a ∧ hexDigit y = some b ∧ v = UInt8.ofNat (a * 16 + b) := by
  simp only [hexByte,Option.bind_eq_bind,Option.bind_eq_some_iff] at digits
  obtain ⟨a,first,b,second,value⟩ := digits
  exact ⟨a,b,first,second,(Option.some.inj value).symm⟩

theorem hexDigit_bounds {u : UInt8} {d : Nat} (digit : hexDigit u = some d) :
    d < 16 ∧ u < 0x80 ∧ u ≠ 0x25 ∧ u ≠ 0x2B := by
  simp only [hexDigit,UInt8.le_iff_toNat_le,UInt8.reduceToNat] at digit
  have apart (v : UInt8) (other : u.toNat ≠ v.toNat) : u ≠ v := fun same => other (congrArg UInt8.toNat same)
  split_ifs at digit with decimal upper lower
  all_goals
    cases digit
    refine ⟨by omega,UInt8.lt_iff_toNat_lt.mpr ?_,apart _ ?_,apart _ ?_⟩ <;> simp only [UInt8.reduceToNat] <;> omega

theorem Encodes.unescaped {plain text : Bytes} (encodes : Encodes plain text) : Percent.unescaped text = plain := by
  induction encodes with
  | nil => exact unescaped_nil
  | escaped digits _ ih => rw [unescaped_escape digits,ih]
  | space _ ih => rw [unescaped_other (escape_percent (by decide) _),ih,if_pos rfl]
  | plain percent plus _ ih => rw [unescaped_other (escape_percent percent _),ih,if_neg plus]

example : unescaped [0x61,0x25,0x32,0x62,0x2B,0x25,0x2B,0x35] = [0x61,0x2B,0x20,0x25,0x20,0x35] := by decide +kernel

end FipsShield.Percent
