import FipsShield.Library.Numeral

/-! JSON texts as ECMAScript reads and writes them. A parsed object keeps its
members as written, repeated keys included; reading a property finds the last. -/
namespace FipsShield

inductive Json where
  | null
  | bool (value : Bool)
  | num (value : Number)
  | str (value : Str)
  | arr (items : List Json)
  | obj (members : List (Str × Json))

namespace Json
open Text Numeral

/-- A value read from the front of a text, with less text left. -/
abbrev Read (α : Type) (s : Str) := { r : α × Str // r.2.length < s.length }

def isBlank (u : UInt16) : Bool := u == 0x09 || u == 0x0A || u == 0x0D || u == 0x20

def skip (s : Str) : Str := s.dropWhile isBlank

def hexDigit (u : UInt16) : Option Nat :=
  if 0x30 ≤ u ∧ u ≤ 0x39 then some (u.toNat - 0x30)
  else if 0x41 ≤ u ∧ u ≤ 0x46 then some (u.toNat - 0x37)
  else if 0x61 ≤ u ∧ u ≤ 0x66 then some (u.toNat - 0x57)
  else none

def hex4 (a b c d : UInt16) : Option UInt16 := do
  return UInt16.ofNat ((((← hexDigit a) * 16 + (← hexDigit b)) * 16 + (← hexDigit c)) * 16 + (← hexDigit d))

def escaped (u : UInt16) : Option UInt16 :=
  if u = 0x22 ∨ u = 0x5C ∨ u = 0x2F then some u
  else if u = 0x62 then some 0x08
  else if u = 0x66 then some 0x0C
  else if u = 0x6E then some 0x0A
  else if u = 0x72 then some 0x0D
  else if u = 0x74 then some 0x09
  else none

def stringBody : Str → Option (Str × Str)
  | [] => none
  | u::rest =>
    if u = 0x22 then some ([],rest)
    else if u = 0x5C then
      match rest with
      | 0x75::a::b::c::d::tail => do
        let unit ← hex4 a b c d
        let (body,left) ← stringBody tail
        return (unit::body,left)
      | e::tail => do
        let unit ← escaped e
        let (body,left) ← stringBody tail
        return (unit::body,left)
      | [] => none
    else if u < 0x20 then none
    else do
      let (body,left) ← stringBody rest
      return (u::body,left)

private theorem pushed {tail : Option (Str × Str)} {unit : UInt16} {body rest : Str}
    (read : (do let (inner,left) ← tail; return (unit::inner,left)) = some (body,rest)) :
    ∃ inner, tail = some (inner,rest) := by
  obtain ⟨⟨inner,left⟩,found,same⟩ := Option.bind_eq_some_iff.mp read
  obtain ⟨_,rfl⟩ := Prod.mk.inj (Option.some.inj same)
  exact ⟨inner,found⟩

theorem stringBody_length {s body rest : Str} (read : stringBody s = some (body,rest)) :
    rest.length < s.length := by
  fun_induction stringBody s generalizing body rest with
  | case1 => contradiction
  | case2 => simp_all
  | case3 a b c d tail _ ih =>
    obtain ⟨unit,_,read⟩ := Option.bind_eq_some_iff.mp read
    obtain ⟨inner,found⟩ := pushed read
    have shorter := ih found
    simp only [List.length_cons]
    omega
  | case4 e tail _ _ ih =>
    obtain ⟨unit,_,read⟩ := Option.bind_eq_some_iff.mp read
    obtain ⟨inner,found⟩ := pushed read
    have shorter := ih found
    simp only [List.length_cons]
    omega
  | case5 => contradiction
  | case6 => contradiction
  | case7 u tail _ _ _ ih =>
    obtain ⟨inner,found⟩ := pushed read
    have shorter := ih found
    simp only [List.length_cons]
    omega

def numberLiteral (s : Str) : Option (Number × Str) :=
  let (negative,body) := signed false s
  let whole := if body.head? = some 0x30 then [0x30] else body.takeWhile isDigit
  let afterWhole := body.drop whole.length
  let (fraction,afterFraction) := fractionPart afterWhole
  -- A point needs digits after it, and an exponent letter needs a whole exponent.
  if whole = [] ∨ (afterWhole.head? = some 0x2E ∧ fraction = []) then none
  else if afterFraction.head? = some 0x65 ∨ afterFraction.head? = some 0x45 then do
    let (exponent,rest) ← exponentPart afterFraction
    return (decimal negative (whole ++ fraction) (exponent - fraction.length),rest)
  else some (decimal negative (whole ++ fraction) (-fraction.length),afterFraction)

theorem numberLiteral_length {s rest : Str} {n : Number} (read : numberLiteral s = some (n,rest)) :
    rest.length < s.length := by
  have body := signed_length false s
  unfold numberLiteral at read
  rcases sign : signed false s with ⟨negative,digits⟩
  simp only [sign] at read body
  generalize wholeEq : (if digits.head? = some 0x30 then [0x30] else digits.takeWhile isDigit) = whole at read
  have dropped := fractionPart_length (digits.drop whole.length)
  rcases point : fractionPart (digits.drop whole.length) with ⟨fraction,tail⟩
  simp only [point] at read dropped
  by_cases missing : whole = [] ∨ (digits.drop whole.length).head? = some 0x2E ∧ fraction = []
  · rw [if_pos missing] at read
    contradiction
  · have present : 0 < whole.length := List.length_pos_iff.mpr (fun none => missing (Or.inl none))
    have digit : 0 < digits.length := by
      cases digits with
      | nil => simp at wholeEq; simp [wholeEq] at present
      | cons => simp
    rw [if_neg missing] at read
    simp only [List.length_drop] at dropped
    split at read
    · obtain ⟨⟨exponent,left⟩,found,same⟩ := Option.bind_eq_some_iff.mp read
      have shorter := exponentPart_length found
      have last : left = rest := (Prod.mk.inj (Option.some.inj same)).2
      subst last
      omega
    · obtain ⟨_,rfl⟩ := Prod.mk.inj (Option.some.inj read)
      omega

theorem skip_cons {s rest : Str} {u : UInt16} (found : skip s = u::rest) : rest.length < s.length := by
  have dropped := (List.dropWhile_suffix isBlank (l := s)).length_le
  rw [show s.dropWhile isBlank = u::rest from found] at dropped
  exact dropped

mutual
def value (s : Str) : Option (Read Json s) :=
  match start : skip s with
  | [] => none
  | u::rest =>
    have shorter := skip_cons start
    if u = 0x22 then
      match body : stringBody rest with
      | some (text,left) =>
        some ⟨(.str text,left),(stringBody_length body).trans shorter⟩
      | none => none
    else if u = 0x5B then
      match close : skip rest with
      | 0x5D::left => some ⟨(.arr [],left),(skip_cons close).trans shorter⟩
      | _ => (elements rest).map fun r => ⟨(.arr r.1.1,r.1.2),r.2.trans shorter⟩
    else if u = 0x7B then
      match close : skip rest with
      | 0x7D::left => some ⟨(.obj [],left),(skip_cons close).trans shorter⟩
      | _ => (members rest).map fun r => ⟨(.obj r.1.1,r.1.2),r.2.trans shorter⟩
    else
      have after (k : Nat) : (rest.drop k).length < s.length := by
        rw [List.length_drop]
        omega
      if (Text.str "true").isPrefixOf (u::rest) then some ⟨(.bool true,rest.drop 3),after 3⟩
      else if (Text.str "false").isPrefixOf (u::rest) then some ⟨(.bool false,rest.drop 4),after 4⟩
      else if (Text.str "null").isPrefixOf (u::rest) then some ⟨(.null,rest.drop 3),after 3⟩
      else
        match number : numberLiteral (u::rest) with
        | some (n,left) =>
          some ⟨(.num n,left),(Nat.lt_succ_iff.mp (numberLiteral_length number)).trans_lt shorter⟩
        | none => none
termination_by 2 * s.length
def elements (s : Str) : Option (Read (List Json) s) :=
  match value s with
  | none => none
  | some ⟨(item,rest),shorter⟩ =>
    match after : skip rest with
    | 0x2C::more =>
      have less := (skip_cons after).trans shorter
      (elements more).map fun r => ⟨(item::r.1.1,r.1.2),r.2.trans less⟩
    | 0x5D::left => some ⟨([item],left),(skip_cons after).trans shorter⟩
    | _ => none
termination_by 2 * s.length + 1
def members (s : Str) : Option (Read (List (Str × Json)) s) :=
  match quote : skip s with
  | 0x22::rest =>
    match body : stringBody rest with
    | none => none
    | some (key,afterKey) =>
      match colon : skip afterKey with
      | 0x3A::more =>
        have within := (skip_cons colon).trans ((stringBody_length body).trans (skip_cons quote))
        match value more with
        | none => none
        | some ⟨(item,tail),shorter⟩ =>
          match after : skip tail with
          | 0x2C::next =>
            have less := (skip_cons after).trans (shorter.trans within)
            (members next).map fun r => ⟨((key,item)::r.1.1,r.1.2),r.2.trans less⟩
          | 0x7D::left => some ⟨([(key,item)],left),(skip_cons after).trans (shorter.trans within)⟩
          | _ => none
      | _ => none
  | _ => none
termination_by 2 * s.length + 1
end

/-- `JSON.parse`: none where it throws. -/
def parse (s : Str) : Option Json :=
  match value s with
  | some ⟨(v,rest),_⟩ => if skip rest = [] then some v else none
  | none => none

/-- The property of an object with these members: the last one written. -/
def property (members : List (Str × Json)) (key : Str) : Option Json :=
  (members.reverse.find? (fun member => member.1 == key)).map Prod.snd

/-- An array index as a property name: canonical decimal below `2 ^ 32 - 1`. -/
def arrayIndex (key : Str) : Option Nat :=
  if key ≠ [] ∧ key.all isDigit ∧ (key.head? = some 0x30 → key.length = 1) ∧
    digitsValue key < 2 ^ 32 - 1 then some (digitsValue key) else none

/-- `Object.keys`: array indices ascending, then the others as first written. -/
def keys (members : List (Str × Json)) : List Str :=
  let written := (members.map Prod.fst).reverse.dedup.reverse
  let indices := written.filter (fun key => (arrayIndex key).isSome)
  let names := written.filter (fun key => (arrayIndex key).isNone)
  indices.mergeSort (fun a b => (arrayIndex a).getD 0 ≤ (arrayIndex b).getD 0) ++ names

def hexUnit (n : Nat) : UInt16 := UInt16.ofNat (if n < 10 then 0x30 + n else 0x57 + n)

def hexEscape (u : UInt16) : Str :=
  Text.str "\\u" ++ [hexUnit (u.toNat / 0x1000),hexUnit (u.toNat / 0x100 % 16),
    hexUnit (u.toNat / 16 % 16),hexUnit (u.toNat % 16)]

/-- How one code unit outside a surrogate pair stands in a written string. -/
def quoteUnit (u : UInt16) : Str :=
  if u = 0x22 ∨ u = 0x5C then [0x5C,u]
  else if u = 0x08 then Text.str "\\b"
  else if u = 0x09 then Text.str "\\t"
  else if u = 0x0A then Text.str "\\n"
  else if u = 0x0C then Text.str "\\f"
  else if u = 0x0D then Text.str "\\r"
  else if u < 0x20 ∨ (0xD800 ≤ u ∧ u < 0xE000) then hexEscape u
  else [u]

def quoteBody : Str → Str
  | u::v::rest =>
    if 0xD800 ≤ u ∧ u < 0xDC00 ∧ 0xDC00 ≤ v ∧ v < 0xE000 then u::v::quoteBody rest
    else quoteUnit u ++ quoteBody (v::rest)
  | [u] => quoteUnit u
  | [] => []

/-- `JSON.stringify` of a string. -/
def quote (s : Str) : Str := 0x22 :: quoteBody s ++ [0x22]

example : ((parse (Text.str "[1e2, \x7b\"a\":null,\"a\":true\x7d]")).map fun
    | .arr [.num n,.obj members] => (n,(keys members).length)
    | _ => (.nan,0)) = some (.fin 100,1) := by decide +kernel
example : (parse (Text.str "[1,]")).isNone := by decide +kernel

end Json
end FipsShield
