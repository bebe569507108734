import FipsShield.Core
import Mathlib.Tactic.IntervalCases
import FipsShield.Banlist.Entries

/-! The line a verdict is logged as (`verdict` in `core/njs/shield_core.js`): a JSON text
after the anchor the detection engine looks for. Only its detail is the client's to choose. -/
namespace FipsShield.VerdictLine
open Text Numeral FipsShield.Core
open Json (quote quoteBody quoteUnit hexEscape hexUnit)

/-! ## Dates -/

def padded (width n : Nat) : Str := List.replicate (width - (natText n).length) 0x30 ++ natText n

/-- Year, month and date of a day counted from 1970-01-01. -/
def civil (days : Int) : Int × Nat × Nat :=
  -- Eras of 400 years, whose years start in March.
  let era := (days + 719468) / 146097
  let day := ((days + 719468) % 146097).toNat
  let year := (day - day / 1460 + day / 36524 - day / 146096) / 365
  let rest := day - (365 * year + year / 4 - year / 100)
  let shifted := (5 * rest + 2) / 153
  let month := if shifted < 10 then shifted + 3 else shifted - 9
  (year + era * 400 + (if month ≤ 2 then 1 else 0),month,rest - (153 * shifted + 2) / 5 + 1)

def isoYear (year : Int) : Str :=
  if 0 ≤ year ∧ year ≤ 9999 then padded 4 year.toNat
  else (if year < 0 then 0x2D else 0x2B) :: padded 6 year.natAbs

/-- `new Date(t).toISOString()`. -/
def toISOString (t : Int) : Str :=
  let (year,month,date) := civil (t / 86400000)
  let time := (t % 86400000).toNat
  isoYear year ++ 0x2D::padded 2 month ++ 0x2D::padded 2 date ++ 0x54::padded 2 (time / 3600000) ++
    0x3A::padded 2 (time / 60000 % 60) ++ 0x3A::padded 2 (time / 1000 % 60) ++ 0x2E::padded 3 (time % 1000) ++ [0x5A]

example : toISOString 1785271819159 = str "2026-07-28T20:50:19.159Z" := by decide +kernel
example : toISOString (-62198755200001) = str "-000002-12-31T23:59:59.999Z" := by decide +kernel

/-! ## The line -/

/-- `JSON.stringify` of an object whose properties are strings. -/
def stringify (properties : List (Str × Str)) : Str :=
  0x7B :: [0x2C].intercalate (properties.map fun property => quote property.1 ++ 0x3A::quote property.2) ++ [0x7D]

def service (v : Verdict) : Str := if v.service = [] then str "unknown" else v.service

def message (v : Verdict) : Str :=
  str "shield-verdict " ++ stringify [(str "ts",toISOString v.ts),(str "src",v.src),(str "service",service v),
    (str "layer",str v.layer.text),(str "rule",str v.rule.text),(str "detail",v.detail)]

/-- The line of the error log, after the date, level and ids that the log writes. -/
def line (stamp : Str) (v : Verdict) : Str := stamp ++ str "js: " ++ message v

/-- No character is one that JSON escapes. -/
def Plain (s : Str) : Prop := quoteBody s = s

instance (s : Str) : Decidable (Plain s) := inferInstanceAs (Decidable (quoteBody s = s))

def rest (v : Verdict) : Str := str ",\"detail\":\"" ++ (quoteBody v.detail ++ str "\"\x7d")

/-! ## Characters that are not escaped -/

def unescaped (u : UInt16) : Bool := 0x20 ≤ u && u < 0xD800 && u != 0x22 && u != 0x5C

theorem quoteUnit_unescaped {u : UInt16} (plain : unescaped u = true) : quoteUnit u = [u] := by
  simp only [unescaped,Bool.and_eq_true,decide_eq_true_eq,bne_iff_ne,ne_eq,UInt16.le_iff_toNat_le,
    UInt16.lt_iff_toNat_lt,← UInt16.toNat_inj] at plain
  simp only [quoteUnit,UInt16.le_iff_toNat_le,UInt16.lt_iff_toNat_lt,← UInt16.toNat_inj]
  simp at *
  split_ifs <;> first | rfl | omega

theorem plain_of_units {s : Str} (units : ∀ u ∈ s, unescaped u = true) : Plain s := by
  rw [Plain]
  fun_induction quoteBody s with
  | case1 u v rest pair ih => rw [ih fun w member => units w (by simp [member])]
  | case2 u v rest pair ih =>
    rw [ih fun w member => units w (by simp [member]),quoteUnit_unescaped (units u (by simp))]
    rfl
  | case3 u => exact quoteUnit_unescaped (units u (by simp))
  | case4 => rfl

theorem quoteUnit_length (u : UInt16) : 0 < (quoteUnit u).length := by
  simp only [quoteUnit]
  split_ifs <;> simp [str,utf16,hexEscape]

theorem quoteBody_length (s : Str) : s.length ≤ (quoteBody s).length := by
  fun_induction quoteBody s with
  | case1 u v rest pair ih => simpa using ih
  | case2 u v rest pair ih =>
    have one := quoteUnit_length u
    simp only [List.length_cons,List.length_append] at *
    omega
  | case3 u => exact quoteUnit_length u
  | case4 => rfl

theorem Plain.quoteless {s : Str} (plain : Plain s) : 0x22 ∉ s := by
  rw [Plain] at plain
  have quoted : quoteUnit 0x22 = [0x5C,0x22] := by decide
  fun_induction quoteBody s with
  | case1 u v rest pair ih =>
    have later := ih (List.cons.inj (List.cons.inj plain).2).2
    have first : u ≠ 0x22 := by rintro rfl; exact absurd pair.1 (by decide)
    have second : v ≠ 0x22 := by rintro rfl; exact absurd pair.2.2.1 (by decide)
    simp [first.symm,second.symm,later]
  | case2 u v rest pair ih =>
    have one := quoteUnit_length u
    have whole := congrArg List.length plain
    have most := quoteBody_length (v::rest)
    simp only [List.length_cons,List.length_append] at whole most
    obtain ⟨w,single⟩ := List.length_eq_one_iff.mp (by omega : (quoteUnit u).length = 1)
    rw [single] at plain
    obtain ⟨rfl,same⟩ := List.cons.inj plain
    have other : w ≠ 0x22 := by
      rintro rfl
      rw [quoted] at single
      exact absurd single (by decide)
    simpa [other.symm] using ih same
  | case3 u =>
    intro member
    obtain rfl := List.mem_singleton.mp member
    rw [quoted] at plain
    exact absurd plain (by decide)
  | case4 => exact List.not_mem_nil

theorem unescaped_of_inAddress {u : UInt16} (inside : Banlist.inAddress u = true) : unescaped u = true := by
  simp only [Banlist.inAddress,isDigit,Bool.or_eq_true,Bool.and_eq_true,decide_eq_true_eq,beq_iff_eq,
    UInt16.le_iff_toNat_le,← UInt16.toNat_inj] at inside
  simp only [unescaped,Bool.and_eq_true,decide_eq_true_eq,bne_iff_ne,ne_eq,UInt16.le_iff_toNat_le,
    UInt16.lt_iff_toNat_lt,← UInt16.toNat_inj]
  simp at *
  omega

theorem address_plain {ip : Str} (address : Banlist.Address ip) : Plain ip :=
  plain_of_units fun u member => unescaped_of_inAddress (address.units u member)

theorem padded_units (width n : Nat) : ∀ u ∈ padded width n, unescaped u = true := by
  intro u member
  rcases List.mem_append.mp member with zero | own
  · rw [List.eq_of_mem_replicate zero]
    decide
  · apply unescaped_of_inAddress
    simp [Banlist.inAddress,natText_digits n u own]

theorem isoYear_units (year : Int) : ∀ u ∈ isoYear year, unescaped u = true := by
  rw [isoYear]
  split_ifs
  · exact padded_units _ _
  · exact List.forall_mem_cons.mpr ⟨by decide,padded_units _ _⟩
  · exact List.forall_mem_cons.mpr ⟨by decide,padded_units _ _⟩

theorem date_plain (t : Int) : Plain (toISOString t) := by
  apply plain_of_units
  have marks : unescaped 0x2D = true ∧ unescaped 0x54 = true ∧ unescaped 0x3A = true ∧ unescaped 0x2E = true ∧
      unescaped 0x5A = true := by decide
  simp only [toISOString,List.forall_mem_append,List.forall_mem_cons,marks]
  and_intros <;> first | exact isoYear_units _ | exact padded_units _ _ | exact True.intro | exact List.forall_mem_nil _

theorem rule_plain (rule : Rule) : Plain (str rule.text) := by
  cases rule <;> decide +kernel

theorem line_eq {v : Verdict} (src : Plain v.src) (service : Plain (service v)) (stamp : Str) :
    line stamp v = stamp ++ (str "js: shield-verdict \x7b\"ts\":\"" ++ (toISOString v.ts ++ (str "\",\"src\":\"" ++
      (v.src ++ (str "\",\"service\":\"" ++ (VerdictLine.service v ++ (str "\",\"layer\":\"ws\",\"rule\":\"" ++
        (str v.rule.text ++ 0x22::rest v)))))))) := by
  have ts := date_plain v.ts
  have rule := rule_plain v.rule
  have layer : str v.layer.text = [0x77,0x73] := by cases v.layer; decide
  have words : quoteBody (str "ts") = str "ts" ∧ quoteBody (str "src") = str "src" ∧
    quoteBody (str "service") = str "service" ∧ quoteBody (str "layer") = str "layer" ∧
    quoteBody (str "rule") = str "rule" ∧ quoteBody (str "detail") = str "detail" ∧
    quoteBody [0x77,0x73] = [0x77,0x73] := by decide +kernel
  simp only [Plain] at ts src service rule
  simp only [line,message,stringify,List.map_cons,List.map_nil,quote,ts,src,service,rule,layer,words]
  simp [List.intercalate,List.intersperse,str,utf16,rest]

/-! ## The anchor stands once -/

/-- No brace, quote and `t` stand in a row; `before` is the unit the text comes after. -/
def Quiet (before : UInt16) : Str → Prop
  | [] => True
  | u::rest => (before = 0x7B → u = 0x22 → rest.head? ≠ some 0x74) ∧ Quiet u rest

theorem Quiet.absent {before : UInt16} {text front after : Str} (quiet : Quiet before text) :
    text ≠ front ++ 0x7B::0x22::0x74::after := by
  rintro rfl
  induction front generalizing before with
  | nil => exact quiet.2.1 rfl rfl rfl
  | cons u rest ih => exact ih quiet.2

theorem Quiet.plain {u : UInt16} {text : Str} (other : u ≠ 0x22) (later : Quiet u text) (before : UInt16) :
    Quiet before (u::text) := ⟨fun _ quote => absurd quote other,later⟩

theorem Quiet.units {s text : Str} (free : 0x22 ∉ s) (later : ∀ before, Quiet before text) (before : UInt16) :
    Quiet before (s ++ text) := by
  induction s generalizing before with
  | nil => exact later before
  | cons u rest ih =>
    obtain ⟨other,others⟩ := not_or.mp (mt List.mem_cons.mpr free)
    exact Quiet.plain (Ne.symm other) (ih others u) before

theorem Quiet.quote {u : UInt16} {text : Str} (other : u ≠ 0x74) (later : Quiet 0x22 (u::text)) (before : UInt16) :
    Quiet before (0x22::u::text) := ⟨fun _ _ starts => other (Option.some.inj starts),later⟩

theorem hexUnit_other {n : Nat} (digit : n < 16) : hexUnit n ≠ 0x22 := by
  interval_cases n <;> decide

theorem quoteUnit_other {u : UInt16} (other : u ≠ 0x22) : 0x22 ∉ quoteUnit u := by
  have bound := u.toNat_lt
  simp only [quoteUnit]
  split_ifs
  · simp [other.symm]
  · decide
  · decide
  · decide
  · decide
  · decide
  · have digits : ∀ n < 16, (0x22 : UInt16) ≠ hexUnit n := fun n digit => (hexUnit_other digit).symm
    have letters : (0x22 : UInt16) ∉ str "\\u" := by decide
    simp only [hexEscape,List.mem_append,letters,List.mem_cons,List.not_mem_nil,or_false,false_or,not_or]
    exact ⟨digits _ (by omega),digits _ (by omega),digits _ (by omega),digits _ (by omega)⟩
  · simp [other.symm]

/-- Every quote of an escaped text comes after a backslash. -/
theorem quiet_body {text : Str} (later : ∀ before, Quiet before text) (s : Str) (before : UInt16) :
    Quiet before (quoteBody s ++ text) := by
  have unit (u : UInt16) {text : Str} (later : ∀ before, Quiet before text) (before : UInt16) :
      Quiet before (quoteUnit u ++ text) := by
    by_cases quote : u = 0x22
    · subst quote
      have escaped : Quiet 0x5C (0x22::text) := ⟨fun brace => absurd brace (by decide),later _⟩
      exact escaped.plain (by decide) before
    · exact Quiet.units (quoteUnit_other quote) later before
  fun_induction quoteBody s generalizing before with
  | case1 u v rest pair ih =>
    have first : u ≠ 0x22 := by rintro rfl; exact absurd pair.1 (by decide)
    have second : v ≠ 0x22 := by rintro rfl; exact absurd pair.2.2.1 (by decide)
    exact Quiet.plain first (Quiet.plain second (ih v) u) before
  | case2 u v rest pair ih =>
    rw [List.append_assoc]
    exact unit u ih before
  | case3 u => exact unit u later before
  | case4 => exact later before

/-- No quote comes right after a brace. -/
def apart (before : UInt16) : Str → Bool
  | [] => true
  | u::rest => !(before == 0x7B && u == 0x22) && apart u rest

/-- It closes one string of the JSON text, and no key it opens starts with `t`. -/
def closes : Str → Bool
  | 0x22::u::rest => u != 0x74 && apart 0x22 (u::rest)
  | _ => false

theorem quiet_apart {before : UInt16} {s text : Str} (free : apart before s = true)
    (later : ∀ before, Quiet before text) : Quiet before (s ++ text) := by
  induction s generalizing before with
  | nil => exact later before
  | cons u rest ih =>
    simp only [apart,Bool.and_eq_true,Bool.not_eq_true',Bool.and_eq_false_iff,beq_eq_false_iff_ne] at free
    refine ⟨fun brace quote => ?_,ih free.2⟩
    rcases free.1 with other | other
    · exact absurd brace other
    · exact absurd quote other

theorem quiet_closes {s text : Str} (closing : closes s = true) (later : ∀ before, Quiet before text) (before : UInt16) :
    Quiet before (s ++ text) := by
  unfold closes at closing
  split at closing
  · next u rest =>
    obtain ⟨other,free⟩ := Bool.and_eq_true_iff.mp closing
    exact Quiet.quote (by simpa using other) (quiet_apart free later) before
  · contradiction

theorem rest_quiet (v : Verdict) (before : UInt16) : Quiet before (0x22::rest v) := by
  have ended : ∀ before, Quiet before (str "\"\x7d") := by
    intro before
    have ended : ∀ before, Quiet before [] := fun _ => trivial
    have last : Quiet before (str "\"\x7d" ++ []) := quiet_closes (by decide) ended before
    rwa [List.append_nil] at last
  exact quiet_closes (s := 0x22::str ",\"detail\":\"") (by decide) (quiet_body ended v.detail) before

/-- After the first quote nothing looks like the start of a verdict. -/
theorem line_quiet {v : Verdict} (src : Plain v.src) (service : Plain (service v)) :
    Quiet 0x22 (str "ts\":\"" ++ (toISOString v.ts ++ (str "\",\"src\":\"" ++ (v.src ++
      (str "\",\"service\":\"" ++ (VerdictLine.service v ++ (str "\",\"layer\":\"ws\",\"rule\":\"" ++
        (str v.rule.text ++ 0x22::rest v)))))))) := by
  apply quiet_apart (by decide)
  apply Quiet.units (date_plain v.ts).quoteless
  apply quiet_closes (by decide)
  apply Quiet.units src.quoteless
  apply quiet_closes (by decide)
  apply Quiet.units service.quoteless
  apply quiet_closes (by decide)
  exact Quiet.units (rule_plain v.rule).quoteless (rest_quiet v)

theorem anchor_unique {stamp front text after : Str} (plain : 0x22 ∉ stamp) (quiet : Quiet 0x22 text)
    (same : stamp ++ str "js: shield-verdict \x7b" ++ 0x22::text =
      front ++ (str "js: shield-verdict \x7b\"ts\":\"" ++ after)) : front = stamp := by
  have words : (0x22 : UInt16) ∉ str "js: shield-verdict \x7b" := by decide
  have split : str "js: shield-verdict \x7b\"ts\":\"" =
      str "js: shield-verdict " ++ 0x7B::0x22::0x74::str "s\":\"" := by decide
  have brace : str "js: shield-verdict \x7b" = str "js: shield-verdict " ++ [0x7B] := by decide
  have free : (0x22 : UInt16) ∉ stamp ++ str "js: shield-verdict \x7b" := by simp [plain,words]
  by_cases early : 0x22 ∈ front
  · -- Then a brace, a quote and a `t` come after the first quote of the line.
    obtain ⟨first,later,rfl,other⟩ := List.eq_append_cons_of_mem early
    rw [List.append_assoc first,List.cons_append] at same
    obtain ⟨_,tail⟩ := Lines.split_unique free other same
    rw [split,List.append_assoc,← List.append_assoc later] at tail
    exact absurd tail quiet.absent
  · have start : front ++ (str "js: shield-verdict \x7b\"ts\":\"" ++ after) =
        front ++ str "js: shield-verdict \x7b" ++ 0x22::0x74::(str "s\":\"" ++ after) := by
      rw [split,brace]
      simp
    rw [start] at same
    obtain ⟨both,_⟩ := Lines.split_unique free (by simp [early,words]) same
    exact (List.append_cancel_right both).symm

end FipsShield.VerdictLine
