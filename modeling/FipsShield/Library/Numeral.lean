import FipsShield.Library.Number
import FipsShield.Library.Text

/-! Decimal numerals in ECMAScript strings: the digits, exponents and signs that
`parseFloat` and JSON number literals share. -/
namespace FipsShield.Numeral
open Text

def isDigit (u : UInt16) : Bool := 0x30 ≤ u && u ≤ 0x39

/-- White space and line terminators, as `trim` and `parseFloat` skip them. -/
def isSpace (u : UInt16) : Bool :=
  (0x09 ≤ u && u ≤ 0x0D) || u == 0x20 || u == 0xA0 || u == 0x1680 || (0x2000 ≤ u && u ≤ 0x200A) ||
    u == 0x2028 || u == 0x2029 || u == 0x202F || u == 0x205F || u == 0x3000 || u == 0xFEFF

/-- `s.trim()`. -/
def trim (s : Str) : Str := (((s.dropWhile isSpace).reverse).dropWhile isSpace).reverse

def digitsValue (ds : Str) : Nat := ds.foldl (fun n d => n * 10 + (d.toNat - 0x30)) 0

/-- The value of `digits * 10 ^ exponent`, rounded as a literal is. -/
def decimal (negative : Bool) (ds : Str) (exponent : Int) : Number :=
  let size := digitsValue ds * Number.power 10 exponent
  Number.nearest (if negative then -size else size)

/-- An optional sign, `+` only where the grammar has it. -/
def signed (plus : Bool) : Str → Bool × Str
  | u::rest => if u = 0x2D then (true,rest) else if plus && u == 0x2B then (false,rest) else (false,u::rest)
  | [] => (false,[])

def exponentPart (s : Str) : Option (Int × Str) :=
  match s with
  | u::rest =>
    if u = 0x65 ∨ u = 0x45 then
      let (negative,body) := signed true rest
      let ds := body.takeWhile isDigit
      if ds = [] then none
      else some (if negative then -(digitsValue ds : Int) else digitsValue ds,body.dropWhile isDigit)
    else none
  | [] => none

def fractionPart : Str → Str × Str
  | u::rest => if u = 0x2E then (rest.takeWhile isDigit,rest.dropWhile isDigit) else ([],u::rest)
  | [] => ([],[])

/-- `parseFloat(s)`: the longest numeral the text starts with, NaN without one. -/
def parseFloat (s : Str) : Number :=
  let (negative,body) := signed true (s.dropWhile isSpace)
  if (str "Infinity").isPrefixOf body then (if negative then .negInf else .posInf)
  else
    let whole := body.takeWhile isDigit
    let (fraction,rest) := fractionPart (body.dropWhile isDigit)
    if whole = [] ∧ fraction = [] then .nan
    else
      let exponent := ((exponentPart rest).map Prod.fst).getD 0
      decimal negative (whole ++ fraction) (exponent - fraction.length)

theorem signed_length (plus : Bool) (s : Str) : (signed plus s).2.length ≤ s.length := by
  unfold signed
  split
  · split_ifs <;> simp
  · simp

theorem exponentPart_length {s rest : Str} {e : Int} (read : exponentPart s = some (e,rest)) :
    rest.length < s.length := by
  unfold exponentPart at read
  split at read
  · next u tail =>
    split_ifs at read
    have body := signed_length true tail
    rcases sign : signed true tail with ⟨negative,digits⟩
    simp only [sign] at read body
    split at read
    · contradiction
    · obtain ⟨_,rfl⟩ := Prod.mk.inj (Option.some.inj read)
      have dropped := (List.dropWhile_suffix isDigit (l := digits)).length_le
      simp only [List.length_cons]
      omega
  · contradiction

theorem fractionPart_length (s : Str) : (fractionPart s).2.length ≤ s.length := by
  unfold fractionPart
  split
  · next u rest =>
    split_ifs
    · have dropped := (List.dropWhile_suffix isDigit (l := rest)).length_le
      simp only [List.length_cons]
      omega
    · simp
  · simp

example : parseFloat (str " 12.5e1x") = .fin 125 := by decide +kernel
example : parseFloat (str "max") = .nan := by decide +kernel

end FipsShield.Numeral
