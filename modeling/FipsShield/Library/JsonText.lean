import FipsShield.Library.Json
import FipsShield.Library.Decimal

/-! JSON texts put together from other JSON texts: what a value reads as does not depend
on the delimiter after it, so objects and arrays read back as what they were written from. -/
namespace FipsShield.Json
open Text Numeral

/-! ## Reading, without the lengths -/

def read (s : Str) : Option (Json × Str) := (value s).map Subtype.val

def readElements (s : Str) : Option (List Json × Str) := (elements s).map Subtype.val

def readMembers (s : Str) : Option (List (Str × Json) × Str) := (members s).map Subtype.val

theorem parse_iff {s : Str} {v : Json} : parse s = some v ↔ ∃ left, read s = some (v,left) ∧ skip left = [] := by
  unfold parse read
  cases value s with
  | none => simp
  | some r =>
    obtain ⟨⟨w,left⟩,_⟩ := r
    by_cases blank : skip left = []
    · simp [blank]
    · simp [blank]

theorem read_eq (s : Str) : read s =
    match skip s with
    | [] => none
    | u::rest =>
      if u = 0x22 then (stringBody rest).map fun r => (.str r.1,r.2)
      else if u = 0x5B then
        match skip rest with
        | 0x5D::left => some (.arr [],left)
        | _ => (readElements rest).map fun r => (.arr r.1,r.2)
      else if u = 0x7B then
        match skip rest with
        | 0x7D::left => some (.obj [],left)
        | _ => (readMembers rest).map fun r => (.obj r.1,r.2)
      else if (Text.str "true").isPrefixOf (u::rest) then some (.bool true,rest.drop 3)
      else if (Text.str "false").isPrefixOf (u::rest) then some (.bool false,rest.drop 4)
      else if (Text.str "null").isPrefixOf (u::rest) then some (.null,rest.drop 3)
      else (numberLiteral (u::rest)).map fun r => (.num r.1,r.2) := by
  unfold read
  rw [value]
  split
  · next none => simp only [none,Option.map_none]
  · next u rest start =>
    simp only [start]
    split_ifs
    · split
      · next found => simp only [found,Option.map_some]
      · next found => simp only [found,Option.map_none]
    · split
      · next close => simp only [close,Option.map_some]
      · next other =>
        split
        · next close => exact absurd close (other _)
        · simp only [readElements,Option.map_map]
          rfl
    · split
      · next close => simp only [close,Option.map_some]
      · next other =>
        split
        · next close => exact absurd close (other _)
        · simp only [readMembers,Option.map_map]
          rfl
    · rfl
    · rfl
    · rfl
    · split
      · next found => simp only [found,Option.map_some]
      · next found => simp only [found,Option.map_none]

theorem readElements_eq (s : Str) : readElements s =
    (read s).bind fun (item,rest) =>
      match skip rest with
      | 0x2C::more => (readElements more).map fun r => (item::r.1,r.2)
      | 0x5D::left => some ([item],left)
      | _ => none := by
  unfold readElements
  rw [elements]
  unfold read
  split
  · next none => simp only [none,Option.map_none,Option.bind_none]
  · next item rest shorter found =>
    simp only [found,Option.map_some,Option.bind_some]
    split
    · next after =>
      simp only [after,Option.map_map]
      rfl
    · next after => simp only [after,Option.map_some]
    · next comma close =>
      split
      · next after => exact absurd after (comma _)
      · next after => exact absurd after (close _)
      · rfl

theorem readMembers_eq (s : Str) : readMembers s =
    match skip s with
    | 0x22::rest =>
      (stringBody rest).bind fun (key,afterKey) =>
        match skip afterKey with
        | 0x3A::more =>
          (read more).bind fun (item,tail) =>
            match skip tail with
            | 0x2C::next => (readMembers next).map fun r => ((key,item)::r.1,r.2)
            | 0x7D::left => some ([(key,item)],left)
            | _ => none
        | _ => none
    | _ => none := by
  unfold readMembers
  rw [members]
  unfold read
  split
  · next rest quote =>
    simp only [quote]
    split
    · next none => simp only [none,Option.map_none,Option.bind_none]
    · next key afterKey body =>
      simp only [body,Option.bind_some]
      split
      · next more colon =>
        simp only [colon]
        split
        · next none => simp only [none,Option.map_none,Option.bind_none]
        · next item tail shorter found =>
          simp only [found,Option.map_some,Option.bind_some]
          split
          · next after =>
            simp only [after,Option.map_map]
            rfl
          · next after => simp only [after,Option.map_some]
          · next comma close =>
            split
            · next after => exact absurd after (comma _)
            · next after => exact absurd after (close _)
            · rfl
      · next other =>
        split
        · next colon => exact absurd colon (other _)
        · rfl
  · next other =>
    split
    · next quote => exact absurd quote (other _)
    · rfl

/-! ## What follows a value -/

/-- Nothing, or a delimiter that no value can take for its own. -/
def Delimited (t : Str) : Prop := ∀ u ∈ t.head?, u = 0x2C ∨ u = 0x5D ∨ u = 0x7D

/-- Either something is left over, or what comes next is delimited. -/
def Closed (left t : Str) : Prop := left = [] → Delimited t

theorem Delimited.not_digit {t : Str} (delimited : Delimited t) : ∀ u ∈ t.head?, isDigit u = false := by
  intro u first
  rcases delimited u first with rfl | rfl | rfl <;> decide

theorem skip_append {s rest : Str} {u : UInt16} (found : skip s = u::rest) (t : Str) :
    skip (s ++ t) = u::(rest ++ t) := by
  have stops : s.dropWhile isBlank = [] → ∀ v ∈ t.head?, isBlank v = false := by
    intro none
    rw [skip,none] at found
    cases found
  rw [skip,(dropWhile_append_stop stops).2]
  exact congrArg (· ++ t) found

theorem pushing (tail : Option (Str × Str)) (unit : UInt16) :
    (do let (body,left) ← tail; return (unit::body,left)) = tail.map fun r => (unit::r.1,r.2) := by
  cases tail <;> rfl

theorem stringBody_quote (rest : Str) : stringBody (0x22::rest) = some ([],rest) := by
  rw [stringBody.eq_def]
  exact if_pos rfl

theorem stringBody_unicode (a b c d : UInt16) (tail : Str) : stringBody (0x5C::0x75::a::b::c::d::tail) =
    (hex4 a b c d).bind fun unit => (stringBody tail).map fun r => (unit::r.1,r.2) := by
  rw [stringBody.eq_def]
  dsimp only
  rw [if_neg (by decide),if_pos rfl]
  exact congrArg (Option.bind (hex4 a b c d)) (funext (pushing _))

theorem stringBody_escape {e : UInt16} (letter : e ≠ 0x75) (tail : Str) : stringBody (0x5C::e::tail) =
    (escaped e).bind fun unit => (stringBody tail).map fun r => (unit::r.1,r.2) := by
  rw [stringBody.eq_def]
  dsimp only
  rw [if_neg (by decide),if_pos rfl]
  split
  · next same => exact absurd (List.cons.inj same).1 letter
  · next same =>
    obtain ⟨rfl,rfl⟩ := List.cons.inj same
    exact congrArg (Option.bind (escaped e)) (funext (pushing _))
  · next same => cases same

theorem stringBody_plain {u : UInt16} (quote : u ≠ 0x22) (slash : u ≠ 0x5C) (control : ¬ u < 0x20) (rest : Str) :
    stringBody (u::rest) = (stringBody rest).map fun r => (u::r.1,r.2) := by
  rw [stringBody.eq_def]
  dsimp only
  rw [if_neg quote,if_neg slash,if_neg control]
  exact pushing _ u

private theorem pushed_append {tail tail' : Option (Str × Str)} {unit : UInt16} {body rest t : Str}
    (longer : ∀ inner, tail = some (inner,rest) → tail' = some (inner,rest ++ t))
    (read : (do let (inner,left) ← tail; return (unit::inner,left)) = some (body,rest)) :
    tail'.map (fun r => (unit::r.1,r.2)) = some (body,rest ++ t) := by
  rw [pushing] at read
  obtain ⟨⟨inner,left⟩,more,same⟩ := Option.map_eq_some_iff.mp read
  obtain ⟨rfl,rfl⟩ := Prod.mk.inj same
  rw [longer inner more]
  rfl

theorem stringBody_append {s body rest : Str} (found : stringBody s = some (body,rest)) (t : Str) :
    stringBody (s ++ t) = some (body,rest ++ t) := by
  fun_induction stringBody s generalizing body rest with
  | case1 => contradiction
  | case2 =>
    obtain ⟨rfl,rfl⟩ := Prod.mk.inj (Option.some.inj found)
    exact stringBody_quote _
  | case3 a b c d tail _ ih =>
    obtain ⟨unit,digits,read⟩ := Option.bind_eq_some_iff.mp found
    simp only [List.cons_append,stringBody_unicode,digits,Option.bind_some]
    exact pushed_append (fun inner => ih) read
  | case4 e tail short _ ih =>
    obtain ⟨unit,escape,read⟩ := Option.bind_eq_some_iff.mp found
    have letter : e ≠ 0x75 := by
      rintro rfl
      revert escape
      simp [escaped]
    simp only [List.cons_append,stringBody_escape letter,escape,Option.bind_some]
    exact pushed_append (fun inner => ih) read
  | case5 => contradiction
  | case6 => contradiction
  | case7 u tail quote slash control ih =>
    rw [List.cons_append,stringBody_plain quote slash control]
    exact pushed_append (fun inner => ih) found

theorem signed_append {plus : Bool} {s : Str} (filled : s ≠ []) (t : Str) :
    signed plus (s ++ t) = ((signed plus s).1,(signed plus s).2 ++ t) := by
  cases s with
  | nil => contradiction
  | cons u rest =>
    simp only [List.cons_append,signed]
    split_ifs <;> rfl

theorem fractionPart_append {s fraction rest t : Str} (found : fractionPart s = (fraction,rest))
    (closed : Closed rest t) : fractionPart (s ++ t) = (fraction,rest ++ t) := by
  cases s with
  | nil =>
    obtain ⟨rfl,rfl⟩ := Prod.mk.inj found
    cases t with
    | nil => rfl
    | cons u tail =>
      have point : u ≠ 0x2E := by
        rcases closed rfl u rfl with rfl | rfl | rfl <;> decide
      simp [fractionPart,point]
  | cons u tail =>
    simp only [List.cons_append,fractionPart] at found ⊢
    split_ifs at found ⊢
    · obtain ⟨rfl,rfl⟩ := Prod.mk.inj found
      obtain ⟨taken,dropped⟩ := dropWhile_append_stop (fun none => (closed none).not_digit)
      rw [taken,dropped]
    · obtain ⟨rfl,rfl⟩ := Prod.mk.inj found
      rfl

theorem exponentPart_append {s rest t : Str} {e : Int} (found : exponentPart s = some (e,rest))
    (closed : Closed rest t) : exponentPart (s ++ t) = some (e,rest ++ t) := by
  cases s with
  | nil => contradiction
  | cons u tail =>
    simp only [List.cons_append,exponentPart] at found ⊢
    by_cases letter : u = 0x65 ∨ u = 0x45
    swap
    · rw [if_neg letter] at found
      contradiction
    rw [if_pos letter] at found ⊢
    have filled : tail ≠ [] := by
      rintro rfl
      simp [signed] at found
    rw [signed_append filled t]
    rcases sign : signed true tail with ⟨negative,body⟩
    simp only [sign] at found ⊢
    by_cases digits : body.takeWhile isDigit = []
    · rw [if_pos digits] at found
      contradiction
    · rw [if_neg digits] at found
      obtain ⟨rfl,rfl⟩ := Prod.mk.inj (Option.some.inj found)
      obtain ⟨taken,dropped⟩ := dropWhile_append_stop (fun none => (closed none).not_digit)
      rw [taken,dropped,if_neg digits]

theorem head_append {s t : Str} (closed : Closed s t) {u : UInt16} (other : u ≠ 0x2C ∧ u ≠ 0x5D ∧ u ≠ 0x7D) :
    (s ++ t).head? = some u ↔ s.head? = some u := by
  cases s with
  | cons v rest => simp
  | nil =>
    refine iff_of_false ?_ (by simp)
    intro first
    rcases closed rfl u first with rfl | rfl | rfl <;> simp at other

theorem numberLiteral_append {s rest t : Str} {n : Number} (found : numberLiteral s = some (n,rest))
    (closed : Closed rest t) : numberLiteral (s ++ t) = some (n,rest ++ t) := by
  have filled : s ≠ [] := by
    rintro rfl
    have shorter := numberLiteral_length found
    simp at shorter
  unfold numberLiteral at found ⊢
  rw [signed_append filled t]
  rcases sign : signed false s with ⟨negative,body⟩
  simp only [sign] at found ⊢
  generalize wholeEq : (if body.head? = some 0x30 then [0x30] else body.takeWhile isDigit) = whole at found
  rcases point : fractionPart (body.drop whole.length) with ⟨fraction,tail⟩
  simp only [point] at found
  by_cases missing : whole = [] ∨ (body.drop whole.length).head? = some 0x2E ∧ fraction = []
  · rw [if_pos missing] at found
    contradiction
  rw [if_neg missing] at found
  have noExponent : tail = [] → rest = [] := by
    rintro rfl
    simpa using (Prod.mk.inj (Option.some.inj found)).2.symm
  have afterFraction : Closed tail t := fun none => closed (noExponent none)
  have afterWhole : Closed (body.drop whole.length) t := by
    intro none
    rw [none] at point
    exact afterFraction (Prod.mk.inj point).2.symm
  have present : body ≠ [] := by
    rintro rfl
    exact missing (Or.inl (by simpa using wholeEq.symm))
  have head : (body ++ t).head? = body.head? := List.head?_append_of_ne_nil _ present
  have inside : whole.length ≤ body.length := by
    rw [← wholeEq]
    split_ifs
    · exact List.length_pos_iff.mpr present
    · exact (List.takeWhile_prefix isDigit).length_le
  have wholeEq' : (if (body ++ t).head? = some 0x30 then [0x30] else (body ++ t).takeWhile isDigit) = whole := by
    rw [head,← wholeEq]
    split_ifs with zero
    · rfl
    · refine (dropWhile_append_stop fun none => (afterWhole ?_).not_digit).1
      rw [if_neg zero] at wholeEq
      have all := List.takeWhile_append_dropWhile (p := isDigit) (l := body)
      rw [none,List.append_nil,wholeEq] at all
      rw [all,List.drop_length]
  have missing' : ¬ (whole = [] ∨ (body.drop whole.length ++ t).head? = some 0x2E ∧ fraction = []) := by
    rwa [head_append afterWhole (by decide)]
  rw [wholeEq',List.drop_append_of_le_length inside,fractionPart_append point afterFraction]
  dsimp only
  rw [if_neg missing']
  have letters : ((tail ++ t).head? = some 0x65 ∨ (tail ++ t).head? = some 0x45) ↔
      (tail.head? = some 0x65 ∨ tail.head? = some 0x45) :=
    or_congr (head_append afterFraction (by decide)) (head_append afterFraction (by decide))
  by_cases letter : tail.head? = some 0x65 ∨ tail.head? = some 0x45
  · rw [if_pos letter] at found
    obtain ⟨⟨exponent,left⟩,read,same⟩ := Option.bind_eq_some_iff.mp found
    obtain ⟨rfl,rfl⟩ := Prod.mk.inj (Option.some.inj same)
    rw [if_pos (letters.mpr letter),exponentPart_append read closed]
    rfl
  · rw [if_neg letter] at found
    obtain ⟨rfl,rfl⟩ := Prod.mk.inj (Option.some.inj found)
    rw [if_neg (letters.not.mpr letter)]

theorem numberLiteral_head {u : UInt16} {rest left : Str} {n : Number}
    (found : numberLiteral (u::rest) = some (n,left)) : u = 0x2D ∨ isDigit u = true := by
  by_contra neither
  obtain ⟨minus,digit⟩ := not_or.mp neither
  have zero : u ≠ 0x30 := by
    rintro rfl
    exact digit (by decide)
  simp [numberLiteral,signed,minus,digit,zero] at found

/-! ## Values before a delimiter -/

/-- A literal name, or a number. -/
def scalar (u : UInt16) (rest : Str) : Option (Json × Str) :=
  if (Text.str "true").isPrefixOf (u::rest) then some (.bool true,rest.drop 3)
  else if (Text.str "false").isPrefixOf (u::rest) then some (.bool false,rest.drop 4)
  else if (Text.str "null").isPrefixOf (u::rest) then some (.null,rest.drop 3)
  else (numberLiteral (u::rest)).map fun r => (.num r.1,r.2)

theorem scalar_append {u : UInt16} {rest left t : Str} {v : Json} (found : scalar u rest = some (v,left))
    (closed : Closed left t) : scalar u (rest ++ t) = some (v,left ++ t) := by
  have longer {word : Str} (starts : word.isPrefixOf (u::rest) = true) : word.isPrefixOf (u::(rest ++ t)) = true :=
    List.isPrefixOf_iff_prefix.mpr ((List.isPrefixOf_iff_prefix.mp starts).trans (List.prefix_append _ t))
  have room {word : Str} (starts : word.isPrefixOf (u::rest) = true) : word.length ≤ rest.length + 1 :=
    (List.isPrefixOf_iff_prefix.mp starts).length_le
  have first {w : UInt16} {word more : Str} (starts : (w::word).isPrefixOf (u::more) = true) : w = u := by
    simp only [List.isPrefixOf,Bool.and_eq_true,beq_iff_eq] at starts
    exact starts.1
  have dropped {k : Nat} (within : k ≤ rest.length) (w : Json) (same : some (w,rest.drop k) = some (v,left)) :
      some (w,(rest ++ t).drop k) = some (v,left ++ t) := by
    obtain ⟨rfl,rfl⟩ := Prod.mk.inj (Option.some.inj same)
    rw [List.drop_append_of_le_length within]
  have trueText : Text.str "true" = [0x74,0x72,0x75,0x65] := by decide
  have falseText : Text.str "false" = [0x66,0x61,0x6C,0x73,0x65] := by decide
  have nullText : Text.str "null" = [0x6E,0x75,0x6C,0x6C] := by decide
  unfold scalar at found ⊢
  rw [trueText,falseText,nullText] at found ⊢
  by_cases yes : List.isPrefixOf [0x74,0x72,0x75,0x65] (u::rest) = true
  · rw [if_pos yes] at found
    rw [if_pos (longer yes)]
    exact dropped (Nat.le_of_succ_le_succ (room yes)) _ found
  rw [if_neg yes] at found
  by_cases no : List.isPrefixOf [0x66,0x61,0x6C,0x73,0x65] (u::rest) = true
  · rw [if_pos no] at found
    rw [if_neg (fun starts => absurd ((first starts).trans (first no).symm) (by decide)),if_pos (longer no)]
    exact dropped (Nat.le_of_succ_le_succ (room no)) _ found
  rw [if_neg no] at found
  by_cases none : List.isPrefixOf [0x6E,0x75,0x6C,0x6C] (u::rest) = true
  · rw [if_pos none] at found
    rw [if_neg (fun starts => absurd ((first starts).trans (first none).symm) (by decide)),
      if_neg (fun starts => absurd ((first starts).trans (first none).symm) (by decide)),if_pos (longer none)]
    exact dropped (Nat.le_of_succ_le_succ (room none)) _ found
  rw [if_neg none] at found
  obtain ⟨⟨n,remains⟩,read,same⟩ := Option.map_eq_some_iff.mp found
  obtain ⟨rfl,rfl⟩ := Prod.mk.inj same
  -- A number starts with a digit or a minus, and no name does.
  have letter {w : UInt16} {word : Str} (name : w ≠ 0x2D ∧ isDigit w = false) :
      ¬ (w::word).isPrefixOf (u::(rest ++ t)) = true := by
    intro starts
    rcases numberLiteral_head read with minus | digit
    · exact name.1 ((first starts).trans minus)
    · rw [← first starts,name.2] at digit
      contradiction
  rw [if_neg (letter (by decide)),if_neg (letter (by decide)),if_neg (letter (by decide)),← List.cons_append,
    numberLiteral_append read closed]
  rfl

theorem read_scalar {s rest : Str} {u : UInt16} (starts : skip s = u::rest)
    (other : u ≠ 0x22 ∧ u ≠ 0x5B ∧ u ≠ 0x7B) : read s = scalar u rest := by
  rw [read_eq,starts]
  dsimp only
  rw [if_neg other.1,if_neg other.2.1,if_neg other.2.2]
  rfl

theorem read_str {s rest text left : Str} (starts : skip s = 0x22::rest)
    (body : stringBody rest = some (text,left)) : read s = some (.str text,left) := by
  rw [read_eq,starts]
  simp [body]

theorem read_arr {s rest left : Str} {items : List Json} (starts : skip s = 0x5B::rest)
    (inside : (skip rest = 0x5D::left ∧ items = []) ∨ (∀ more, skip rest ≠ 0x5D::more) ∧
      readElements rest = some (items,left)) : read s = some (.arr items,left) := by
  rw [read_eq,starts]
  rcases inside with ⟨close,rfl⟩ | ⟨filled,found⟩
  · simp [close]
  · simp only [found,Option.map_some]
    rw [if_neg (by decide),if_pos trivial]

theorem read_obj {s rest left : Str} {inner : List (Str × Json)} (starts : skip s = 0x7B::rest)
    (inside : (skip rest = 0x7D::left ∧ inner = []) ∨ (∀ more, skip rest ≠ 0x7D::more) ∧
      readMembers rest = some (inner,left)) : read s = some (.obj inner,left) := by
  rw [read_eq,starts]
  rcases inside with ⟨close,rfl⟩ | ⟨filled,found⟩
  · simp [close]
  · simp only [found,Option.map_some]
    rw [if_neg (by decide),if_neg (by decide),if_pos trivial]

/-- Everything that a value can be. -/
theorem read_cases {s left : Str} {v : Json} (found : read s = some (v,left)) :
    (∃ rest text, skip s = 0x22::rest ∧ v = .str text ∧ stringBody rest = some (text,left)) ∨
    (∃ rest items, skip s = 0x5B::rest ∧ v = .arr items ∧ ((skip rest = 0x5D::left ∧ items = []) ∨
      (∀ more, skip rest ≠ 0x5D::more) ∧ readElements rest = some (items,left))) ∨
    (∃ rest inner, skip s = 0x7B::rest ∧ v = .obj inner ∧ ((skip rest = 0x7D::left ∧ inner = []) ∨
      (∀ more, skip rest ≠ 0x7D::more) ∧ readMembers rest = some (inner,left))) ∨
    ∃ u rest, skip s = u::rest ∧ (u ≠ 0x22 ∧ u ≠ 0x5B ∧ u ≠ 0x7B) ∧ scalar u rest = some (v,left) := by
  cases starts : skip s with
  | nil => simp [read_eq,starts] at found
  | cons u rest =>
    by_cases string : u = 0x22
    · subst string
      rw [read_eq,starts] at found
      obtain ⟨⟨text,remains⟩,body,same⟩ := Option.map_eq_some_iff.mp found
      obtain ⟨rfl,rfl⟩ := Prod.mk.inj same
      exact Or.inl ⟨rest,text,rfl,rfl,body⟩
    by_cases array : u = 0x5B
    · subst array
      refine Or.inr (Or.inl ?_)
      rw [read_eq,starts] at found
      simp only [if_neg string,if_true] at found
      split at found
      · next close =>
        obtain ⟨rfl,rfl⟩ := Prod.mk.inj (Option.some.inj found)
        exact ⟨rest,[],rfl,rfl,Or.inl ⟨close,rfl⟩⟩
      · next filled =>
        obtain ⟨⟨items,remains⟩,read,same⟩ := Option.map_eq_some_iff.mp found
        obtain ⟨rfl,rfl⟩ := Prod.mk.inj same
        exact ⟨rest,items,rfl,rfl,Or.inr ⟨fun more close => filled more close,read⟩⟩
    by_cases object : u = 0x7B
    · subst object
      refine Or.inr (Or.inr (Or.inl ?_))
      rw [read_eq,starts] at found
      simp only [if_neg string,if_neg array,if_true] at found
      split at found
      · next close =>
        obtain ⟨rfl,rfl⟩ := Prod.mk.inj (Option.some.inj found)
        exact ⟨rest,[],rfl,rfl,Or.inl ⟨close,rfl⟩⟩
      · next filled =>
        obtain ⟨⟨inner,remains⟩,read,same⟩ := Option.map_eq_some_iff.mp found
        obtain ⟨rfl,rfl⟩ := Prod.mk.inj same
        exact ⟨rest,inner,rfl,rfl,Or.inr ⟨fun more close => filled more close,read⟩⟩
    · rw [read_scalar starts ⟨string,array,object⟩] at found
      exact Or.inr (Or.inr (Or.inr ⟨u,rest,rfl,⟨string,array,object⟩,found⟩))

theorem readElements_iff {s left : Str} {items : List Json} : readElements s = some (items,left) ↔
    ∃ item rest, read s = some (item,rest) ∧
      ((∃ more tail, skip rest = 0x2C::more ∧ readElements more = some (tail,left) ∧ items = item::tail) ∨
        skip rest = 0x5D::left ∧ items = [item]) := by
  rw [readElements_eq,Option.bind_eq_some_iff]
  constructor
  · rintro ⟨⟨item,rest⟩,found,after⟩
    refine ⟨item,rest,found,?_⟩
    dsimp only at after
    split at after
    · next comma =>
      obtain ⟨⟨tail,remains⟩,more,same⟩ := Option.map_eq_some_iff.mp after
      obtain ⟨rfl,rfl⟩ := Prod.mk.inj same
      exact Or.inl ⟨_,tail,comma,more,rfl⟩
    · next close =>
      obtain ⟨rfl,rfl⟩ := Prod.mk.inj (Option.some.inj after)
      exact Or.inr ⟨close,rfl⟩
    · contradiction
  · rintro ⟨item,rest,found,⟨more,tail,comma,read,rfl⟩ | ⟨close,rfl⟩⟩
    · exact ⟨(item,rest),found,by simp [comma,read]⟩
    · exact ⟨(item,rest),found,by simp [close]⟩

theorem readMembers_iff {s left : Str} {inner : List (Str × Json)} : readMembers s = some (inner,left) ↔
    ∃ quoted key afterKey more item rest, skip s = 0x22::quoted ∧ stringBody quoted = some (key,afterKey) ∧
      skip afterKey = 0x3A::more ∧ read more = some (item,rest) ∧
      ((∃ next tail, skip rest = 0x2C::next ∧ readMembers next = some (tail,left) ∧ inner = (key,item)::tail) ∨
        skip rest = 0x7D::left ∧ inner = [(key,item)]) := by
  rw [readMembers_eq]
  constructor
  · intro found
    split at found
    · next quoted quote =>
      obtain ⟨⟨key,afterKey⟩,body,found⟩ := Option.bind_eq_some_iff.mp found
      dsimp only at found
      split at found
      · next more colon =>
        obtain ⟨⟨item,rest⟩,read,after⟩ := Option.bind_eq_some_iff.mp found
        refine ⟨quoted,key,afterKey,more,item,rest,quote,body,colon,read,?_⟩
        dsimp only at after
        split at after
        · next comma =>
          obtain ⟨⟨tail,remains⟩,others,same⟩ := Option.map_eq_some_iff.mp after
          obtain ⟨rfl,rfl⟩ := Prod.mk.inj same
          exact Or.inl ⟨_,tail,comma,others,rfl⟩
        · next close =>
          obtain ⟨rfl,rfl⟩ := Prod.mk.inj (Option.some.inj after)
          exact Or.inr ⟨close,rfl⟩
        · contradiction
      · contradiction
    · contradiction
  · rintro ⟨quoted,key,afterKey,more,item,rest,quote,body,colon,read,⟨next,tail,comma,others,rfl⟩ | ⟨close,rfl⟩⟩
    · simp [quote,body,colon,read,comma,others]
    · simp [quote,body,colon,read,close]

theorem not_close_append {s t : Str} {u : UInt16} (filled : ∀ more, skip s ≠ u::more) (present : skip s ≠ []) :
    ∀ more, skip (s ++ t) ≠ u::more := by
  intro more close
  cases starts : skip s with
  | nil => exact present starts
  | cons v rest =>
    rw [skip_append starts] at close
    obtain ⟨rfl,_⟩ := List.cons.inj close
    exact filled rest starts

theorem readElements_filled {s left : Str} {items : List Json} (found : readElements s = some (items,left)) :
    skip s ≠ [] := by
  intro none
  obtain ⟨item,rest,read,_⟩ := readElements_iff.mp found
  rw [read_eq,none] at read
  contradiction

theorem readMembers_filled {s left : Str} {inner : List (Str × Json)} (found : readMembers s = some (inner,left)) :
    skip s ≠ [] := by
  intro none
  obtain ⟨_,_,_,_,_,_,quote,_⟩ := readMembers_iff.mp found
  rw [none] at quote
  contradiction

/-- What is read of a text stays as it is when more follows, a value's end apart. -/
structure Extends (t s : Str) : Prop where
  value : ∀ {v left}, read s = some (v,left) → Closed left t → read (s ++ t) = some (v,left ++ t)
  elements : ∀ {items left}, readElements s = some (items,left) → readElements (s ++ t) = some (items,left ++ t)
  members : ∀ {inner left}, readMembers s = some (inner,left) → readMembers (s ++ t) = some (inner,left ++ t)

theorem read_append {s left t : Str} {v : Json} (shorter : ∀ s' : Str, s'.length < s.length → Extends t s')
    (found : read s = some (v,left)) (closed : Closed left t) : read (s ++ t) = some (v,left ++ t) := by
  rcases read_cases found with ⟨rest,text,starts,rfl,body⟩ | ⟨rest,items,starts,rfl,inside⟩ |
    ⟨rest,inner,starts,rfl,inside⟩ | ⟨u,rest,starts,other,scalar⟩
  · exact read_str (skip_append starts t) (stringBody_append body t)
  · refine read_arr (skip_append starts t) (inside.imp ?_ ?_)
    · rintro ⟨close,rfl⟩
      exact ⟨skip_append close t,rfl⟩
    · rintro ⟨filled,read⟩
      exact ⟨not_close_append filled (readElements_filled read),(shorter rest (skip_cons starts)).elements read⟩
  · refine read_obj (skip_append starts t) (inside.imp ?_ ?_)
    · rintro ⟨close,rfl⟩
      exact ⟨skip_append close t,rfl⟩
    · rintro ⟨filled,read⟩
      exact ⟨not_close_append filled (readMembers_filled read),(shorter rest (skip_cons starts)).members read⟩
  · rw [read_scalar (skip_append starts t) other]
    exact scalar_append scalar closed

theorem read_length {s left : Str} {v : Json} (found : read s = some (v,left)) : left.length < s.length := by
  obtain ⟨⟨r,shorter⟩,_,same⟩ := Option.map_eq_some_iff.mp found
  obtain rfl : r = (v,left) := same
  exact shorter

theorem closed_of_skip {rest more t : Str} {u : UInt16} (after : skip rest = u::more) : Closed rest t := by
  rintro rfl
  cases after

theorem extends_all (t s : Str) : Extends t s := by
  induction size : s.length using Nat.strongRecOn generalizing s with
  | ind n ih =>
    have shorter (s' : Str) (less : s'.length < s.length) : Extends t s' := ih _ (size ▸ less) s' rfl
    refine ⟨read_append shorter,?_,?_⟩
    · intro items left found
      obtain ⟨item,rest,read,after⟩ := readElements_iff.mp found
      have within := read_length read
      refine readElements_iff.mpr ⟨item,rest ++ t,?_,?_⟩
      · rcases after with ⟨more,tail,comma,_⟩ | ⟨close,_⟩
        · exact read_append shorter read (closed_of_skip comma)
        · exact read_append shorter read (closed_of_skip close)
      · refine after.imp ?_ ?_
        · rintro ⟨more,tail,comma,others,rfl⟩
          have less := (skip_cons comma).trans within
          exact ⟨more ++ t,tail,skip_append comma t,(shorter more less).elements others,rfl⟩
        · rintro ⟨close,rfl⟩
          exact ⟨skip_append close t,rfl⟩
    · intro inner left found
      obtain ⟨quoted,key,afterKey,more,item,rest,quote,body,colon,read,after⟩ := readMembers_iff.mp found
      have before := (skip_cons colon).trans ((stringBody_length body).trans (skip_cons quote))
      have within := (read_length read).trans before
      refine readMembers_iff.mpr ⟨quoted ++ t,key,afterKey ++ t,more ++ t,item,rest ++ t,skip_append quote t,
        stringBody_append body t,skip_append colon t,?_,?_⟩
      · rcases after with ⟨next,tail,comma,_⟩ | ⟨close,_⟩
        · exact (shorter more before).value read (closed_of_skip comma)
        · exact (shorter more before).value read (closed_of_skip close)
      · refine after.imp ?_ ?_
        · rintro ⟨next,tail,comma,others,rfl⟩
          have less := (skip_cons comma).trans within
          exact ⟨next ++ t,tail,skip_append comma t,(shorter next less).members others,rfl⟩
        · rintro ⟨close,rfl⟩
          exact ⟨skip_append close t,rfl⟩

/-! ## Texts put together -/

/-- Whatever delimiter follows, the text reads as a value that is followed by it. -/
def Writes (s : Str) (v : Json) : Prop :=
  ∀ t, Delimited t → ∃ blank, (∀ rest, skip (blank ++ rest) = skip rest) ∧ read (s ++ t) = some (v,blank ++ t)

theorem skip_blank {s : Str} (blank : skip s = []) (rest : Str) : skip (s ++ rest) = skip rest := by
  have all : ∀ u ∈ s, isBlank u = true := by simpa [skip,List.dropWhile_eq_nil_iff] using blank
  rw [skip,List.dropWhile_append_of_pos all]
  rfl

/-- A text is one of a value alone exactly if it is in any larger text. -/
theorem parse_iff_writes {s : Str} {v : Json} : parse s = some v ↔ Writes s v := by
  constructor
  · intro parsed t delimited
    obtain ⟨left,found,blank⟩ := parse_iff.mp parsed
    exact ⟨left,skip_blank blank,(extends_all t s).value found (fun _ => delimited)⟩
  · intro writes
    obtain ⟨blank,skipped,found⟩ := writes [] (fun _ none => by cases none)
    rw [List.append_nil,List.append_nil] at found
    have alone := skipped []
    rw [List.append_nil] at alone
    exact parse_iff.mpr ⟨blank,found,alone⟩

theorem scalar_opens {u : UInt16} {rest left : Str} {v : Json} (found : scalar u rest = some (v,left)) : u ≠ 0x5D := by
  rintro rfl
  have trueText : Text.str "true" = [0x74,0x72,0x75,0x65] := by decide
  have falseText : Text.str "false" = [0x66,0x61,0x6C,0x73,0x65] := by decide
  have nullText : Text.str "null" = [0x6E,0x75,0x6C,0x6C] := by decide
  simp only [scalar,trueText,falseText,nullText,List.isPrefixOf] at found
  simp only [show ((0x74 : UInt16) == 0x5D) = false by decide,show ((0x66 : UInt16) == 0x5D) = false by decide,
    show ((0x6E : UInt16) == 0x5D) = false by decide,Bool.false_and,Bool.false_eq_true,if_false] at found
  obtain ⟨⟨n,remains⟩,read,_⟩ := Option.map_eq_some_iff.mp found
  exact absurd (numberLiteral_head read) (by decide)

theorem read_opens {s left : Str} {v : Json} (found : read s = some (v,left)) (more : Str) : skip s ≠ 0x5D::more := by
  intro close
  rcases read_cases found with ⟨_,_,starts,_⟩ | ⟨_,_,starts,_⟩ | ⟨_,_,starts,_⟩ | ⟨u,rest,starts,_,found⟩ <;>
    rw [close] at starts
  · exact absurd (List.cons.inj starts).1 (by decide)
  · exact absurd (List.cons.inj starts).1 (by decide)
  · exact absurd (List.cons.inj starts).1 (by decide)
  · exact scalar_opens found (List.cons.inj starts).1.symm

/-- Texts with a comma between any two. -/
def separated : List Str → Str
  | [] => []
  | s::rest => s ++ rest.flatMap (0x2C :: ·)

theorem separated_concat (texts : List Str) (s : Str) :
    separated (texts ++ [s]) = if texts = [] then s else separated texts ++ 0x2C::s := by
  cases texts <;> simp [separated]

/-- What follows the first of some texts and those after it up to a bracket. -/
theorem separated_cons (s : Str) (rest : List Str) (t : Str) : separated (s::rest) ++ t =
    s ++ match rest with
      | [] => t
      | _::_ => 0x2C::(separated rest ++ t) := by
  cases rest <;> simp [separated]

theorem readElements_separated {texts : List Str} {items : List Json} (written : List.Forall₂ Writes texts items)
    (filled : texts ≠ []) (t : Str) : readElements (separated texts ++ 0x5D::t) = some (items,t) := by
  induction written with
  | nil => contradiction
  | @cons s item rest items writes others ih =>
    rw [separated_cons]
    cases others with
    | nil =>
      obtain ⟨blank,skipped,found⟩ := writes (0x5D::t) (by simp [Delimited])
      exact readElements_iff.mpr ⟨item,_,found,Or.inr ⟨skipped _,rfl⟩⟩
    | @cons s' item' rest' items' _ _ =>
      obtain ⟨blank,skipped,found⟩ := writes (0x2C::(separated (s'::rest') ++ 0x5D::t)) (by simp [Delimited])
      exact readElements_iff.mpr ⟨item,_,found,Or.inl ⟨_,_,skipped _,ih (by simp),rfl⟩⟩

/-- A text of a member: a string that reads as its name, a colon, and a text of its value. -/
def WritesMember (s : Str) (member : Str × Json) : Prop :=
  ∃ body text, s = 0x22::(body ++ 0x22::0x3A::text) ∧ (∀ t, stringBody (body ++ 0x22::t) = some (member.1,t)) ∧
    Writes text member.2

theorem readMembers_separated {texts : List Str} {inner : List (Str × Json)}
    (written : List.Forall₂ WritesMember texts inner) (filled : texts ≠ []) (t : Str) :
    readMembers (separated texts ++ 0x7D::t) = some (inner,t) := by
  induction written with
  | nil => contradiction
  | @cons s member rest inner writes others ih =>
    rw [separated_cons]
    obtain ⟨body,text,rfl,named,writes⟩ := writes
    have colon (more : Str) : skip (0x3A::more) = 0x3A::more := rfl
    have quote (more : Str) : skip (0x22::more) = 0x22::more := rfl
    cases others with
    | nil =>
      obtain ⟨blank,skipped,found⟩ := writes (0x7D::t) (by simp [Delimited])
      refine readMembers_iff.mpr ⟨_,member.1,_,_,member.2,_,quote _,?_,colon _,found,Or.inr ⟨skipped _,rfl⟩⟩
      simpa using named (0x3A::(text ++ 0x7D::t))
    | @cons s' member' rest' inner' _ _ =>
      obtain ⟨blank,skipped,found⟩ := writes (0x2C::(separated (s'::rest') ++ 0x7D::t)) (by simp [Delimited])
      refine readMembers_iff.mpr ⟨_,member.1,_,_,member.2,_,quote _,?_,colon _,found,
        Or.inl ⟨_,_,skipped _,ih (by simp),rfl⟩⟩
      simpa using named (0x3A::(text ++ 0x2C::(separated (s'::rest') ++ 0x7D::t)))

theorem parse_array {texts : List Str} {items : List Json}
    (written : List.Forall₂ (fun s v => parse s = some v) texts items) :
    parse (0x5B::(separated texts ++ [0x5D])) = some (.arr items) := by
  refine parse_iff.mpr ⟨[],?_,rfl⟩
  have starts : skip (0x5B::(separated texts ++ [0x5D])) = 0x5B::(separated texts ++ [0x5D]) := rfl
  refine read_arr starts ?_
  cases written with
  | nil => exact Or.inl ⟨rfl,rfl⟩
  | @cons s item rest items first others =>
    have writes : List.Forall₂ Writes (s::rest) (item::items) :=
      .cons (parse_iff_writes.mp first) (others.imp fun _ _ => parse_iff_writes.mp)
    have all := readElements_separated writes (by simp) []
    obtain ⟨_,_,read,_⟩ := readElements_iff.mp all
    exact Or.inr ⟨read_opens read,all⟩

theorem parse_object {texts : List Str} {inner : List (Str × Json)}
    (written : List.Forall₂ WritesMember texts inner) :
    parse (0x7B::(separated texts ++ [0x7D])) = some (.obj inner) := by
  refine parse_iff.mpr ⟨[],?_,rfl⟩
  have starts : skip (0x7B::(separated texts ++ [0x7D])) = 0x7B::(separated texts ++ [0x7D]) := rfl
  refine read_obj starts ?_
  cases written with
  | nil => exact Or.inl ⟨rfl,rfl⟩
  | @cons s member rest inner first others =>
    have all := readMembers_separated (.cons first others) (by simp) []
    obtain ⟨_,_,_,_,_,_,quote,_⟩ := readMembers_iff.mp all
    refine Or.inr ⟨?_,all⟩
    intro more close
    rw [quote] at close
    exact absurd (List.cons.inj close).1 (by decide)

theorem parse_string {body text : Str} (named : ∀ t, stringBody (body ++ 0x22::t) = some (text,t)) :
    parse (0x22::(body ++ [0x22])) = some (.str text) := by
  have starts : skip (0x22::(body ++ [0x22])) = 0x22::(body ++ [0x22]) := rfl
  exact parse_iff.mpr ⟨[],read_str starts (named []),rfl⟩

theorem parse_true : parse (Text.str "true") = some (.bool true) := parse_iff.mpr ⟨[],by rw [read_eq]; rfl,rfl⟩

theorem parse_false : parse (Text.str "false") = some (.bool false) := parse_iff.mpr ⟨[],by rw [read_eq]; rfl,rfl⟩

theorem numberLiteral_natText (n : Nat) : numberLiteral (natText n) = some (Number.nearest (n : ℚ),[]) := by
  have digits := natText_digits n
  have whole : (if (natText n).head? = some 0x30 then [0x30] else (natText n).takeWhile isDigit) = natText n := by
    rcases Nat.eq_zero_or_pos n with rfl | positive
    · decide
    · rw [if_neg (natText_head positive),(takeWhile_digits digits).1]
  have value : digitsValue (natText n) * Number.power 10 0 = (n : ℚ) := by
    rw [digitsValue_natText]
    simp [Number.power]
  simp only [numberLiteral,signed_digits false digits,whole,List.drop_length,fractionPart,natText_ne_nil,decimal]
  simp [value]

theorem scalar_digit {u : UInt16} (digit : isDigit u = true) (rest : Str) :
    scalar u rest = (numberLiteral (u::rest)).map fun r => (.num r.1,r.2) := by
  have apart {w : UInt16} {word : Str} (letter : isDigit w = false) : (w::word).isPrefixOf (u::rest) = false := by
    have other : w ≠ u := by
      rintro rfl
      rw [digit] at letter
      contradiction
    simp [List.isPrefixOf,other]
  have names : Text.str "true" = [0x74,0x72,0x75,0x65] ∧ Text.str "false" = [0x66,0x61,0x6C,0x73,0x65] ∧
      Text.str "null" = [0x6E,0x75,0x6C,0x6C] := by decide
  rw [scalar,names.1,names.2.1,names.2.2,apart (by decide),apart (by decide),apart (by decide)]
  rfl

theorem parse_natText (n : Nat) : parse (natText n) = some (.num (Number.nearest (n : ℚ))) := by
  have number := numberLiteral_natText n
  cases text : natText n with
  | nil => exact absurd text (natText_ne_nil n)
  | cons u rest =>
    have digit := natText_digits n u (by simp [text])
    have blank : isBlank u = false := by
      by_contra space
      simp only [isBlank,Bool.not_eq_false,Bool.or_eq_true,beq_iff_eq] at space
      rcases space with ((rfl | rfl) | rfl) | rfl <;> revert digit <;> decide
    have starts : skip (u::rest) = u::rest := by simp [skip,blank]
    have other : u ≠ 0x22 ∧ u ≠ 0x5B ∧ u ≠ 0x7B := by
      refine ⟨?_,?_,?_⟩ <;> rintro rfl <;> revert digit <;> decide
    refine parse_iff.mpr ⟨[],?_,rfl⟩
    rw [read_scalar starts other,scalar_digit digit,← text,number]
    rfl

end FipsShield.Json
