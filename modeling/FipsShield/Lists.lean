import FipsShield.Messages
import FipsShield.Library.NumberText

/-! The lists of a policy, the message types it allows and the event kinds it denies, and
what each forwarded message has to do with them. -/
namespace FipsShield.Engine
open Text FipsShield.Core Json Numeral

/-! ## The policy string -/

/-- A part of a policy string that assigns this to the property. -/
def Assigns (key : String) (part value : Str) : Prop :=
  ∃ name, part = name ++ 0x3D::value ∧ 0x3D ∉ name ∧ name ≠ [] ∧ trim name = str key

/-- The last part of the policy string that assigns to the property assigns this. -/
def Binds (raw : Str) (key : String) (value : Str) : Prop :=
  ∃ earlier part later, raw.splitOn 0x3B = earlier ++ part::later ∧ Assigns key part value ∧
    ∀ other ∈ later, ∀ v, ¬ Assigns key other v

/-- The entries of a comma-separated list. -/
def listed (v : Str) : List Str := (v.splitOn 0x2C).map trim

def assignment (part : Str) : Option (Str × Str) :=
  let eq := part.idxOf 0x3D
  if 0 < eq ∧ eq < part.length then some (trim (part.take eq),part.drop (eq + 1)) else none

theorem policy_eq (raw : Str) : policy (some raw) = (raw.splitOn 0x3B).filterMap assignment := rfl

theorem assignment_iff (key : String) (part value : Str) :
    assignment part = some (str key,value) ↔ Assigns key part value := by
  simp only [assignment]
  constructor
  · intro found
    split_ifs at found with inside
    obtain ⟨named,rfl⟩ := Prod.mk.inj (Option.some.inj found)
    refine ⟨part.take (part.idxOf 0x3D),?_,?_,?_,named⟩
    · conv_lhs => rw [← List.take_append_drop (part.idxOf 0x3D) part,List.drop_eq_getElem_cons inside.2]
      rw [List.getElem_idxOf inside.2]
    · intro early
      have member : 0x3D ∈ part := List.mem_of_mem_take early
      exact absurd ((List.mem_take_iff_idxOf_lt member).mp early) (Nat.lt_irrefl _)
    · rw [ne_eq,List.take_eq_nil_iff]
      rintro (zero | rfl)
      · omega
      · simp at inside
  · rintro ⟨name,rfl,free,filled,named⟩
    have place : (name ++ 0x3D::value).idxOf 0x3D = name.length := by
      rw [List.idxOf_append_of_notMem free,List.idxOf_cons_self,Nat.add_zero]
    have some : 0 < name.length := List.length_pos_iff.mpr filled
    rw [place,if_pos ⟨some,by simp⟩]
    simp [named]

theorem assigns_any (key : String) (part : Str) :
    (assignment part).any (fun entry => entry.1 == str key) = true ↔ ∃ value, Assigns key part value := by
  simp only [← assignment_iff,Option.any_eq_true,beq_iff_eq]
  constructor
  · rintro ⟨⟨name,value⟩,found,rfl⟩
    exact ⟨value,found⟩
  · rintro ⟨value,found⟩
    exact ⟨_,found,rfl⟩

theorem lookup_iff (raw : Str) (key : String) (value : Str) :
    lookup (policy (some raw)) key = some value ↔ Binds raw key value := by
  have unassigned (part : Str) : (!(assignment part).any fun entry => entry.1 == str key) = true ↔
      ∀ v, ¬ Assigns key part v := by
    rw [Bool.not_eq_true',← Bool.not_eq_true,assigns_any,not_exists]
  rw [lookup,policy_eq,← List.filterMap_reverse,List.find?_filterMap,Option.map_eq_some_iff]
  simp only [Option.bind_eq_some_iff,List.find?_eq_some_iff_append,unassigned]
  constructor
  · rintro ⟨⟨name,_⟩,⟨part,⟨assigns,later,earlier,split,last⟩,found⟩,rfl⟩
    have named : name = str key := by simpa [found] using assigns
    subst named
    refine ⟨earlier.reverse,part,later.reverse,?_,(assignment_iff _ _ _).mp found,by simpa using last⟩
    rw [List.reverse_eq_iff.mp split]
    simp
  · rintro ⟨earlier,part,later,split,assigns,last⟩
    refine ⟨(str key,value),⟨part,⟨(assigns_any _ _).mpr ⟨value,assigns⟩,later.reverse,earlier.reverse,?_,by simpa using last⟩,
      (assignment_iff _ _ _).mpr assigns⟩,rfl⟩
    rw [split]
    simp

/-! ## The lists -/

theorem listed_nil : listed [] = [[]] := rfl

theorem keyset_iff (v dflt t : Str) : t ∈ keyset (some v) dflt ↔ t ∈ listed (if v = [] then dflt else v) ∧ t ≠ [] := by
  have raw : (if some v = none ∨ some v = some [] then dflt else (some v).getD []) = if v = [] then dflt else v := by
    simp
  simp only [keyset,raw]
  generalize (if v = [] then dflt else v) = list
  split_ifs with empty
  · rw [empty,listed_nil]
    simp
  · rw [List.mem_filter,decide_eq_true_eq,listed]

theorem str_filled {s : String} (filled : s.toList ≠ []) : str s ≠ [] := by
  obtain ⟨c,rest,same⟩ := List.exists_cons_of_ne_nil filled
  rw [Text.str,same,List.flatMap_cons]
  exact List.append_ne_nil_of_left_ne_nil (utf16_filled c) _

theorem positiveText_filled (q : ℚ) : Number.positiveText q ≠ [] := by
  simp only [Number.positiveText]
  split_ifs with _ short <;> simp [Nat.toDigits_ne_nil]

theorem text_filled (n : Number) : str n.text ≠ [] := by
  apply str_filled
  cases n with
  | fin q =>
    simp only [Number.text]
    split_ifs
    · decide
    · simpa using positiveText_filled q
    · simp
  | _ => decide

/-- The type of the message is an entry of the one list, and if it is an EVENT the text of
its kind is no entry of the other. -/
def Admitted (v w : Str) (m : Bytes) : Prop :=
  ∃ t args, said m = some (t,args) ∧ t ∈ listed v ∧ (t = str "EVENT" → ∃ ev kind, args.head? = some (.obj ev) ∧
    property ev (str "kind") = some (.num kind) ∧ str kind.text ∉ listed w)

/-- What the check of an event says of a value of its `kind`. -/
def kindVerdict (cfg : Cfg) : Option Json → Option Violation
  | some (.num kind) =>
    if cfg.kindDeny.contains (str kind.text) then some ⟨.kindDenied,labelled "kind=" kind⟩ else none
  | _ => some ⟨.malformed,str "bad-event"⟩

theorem kindVerdict_none {cfg : Cfg} {v : Option Json} :
    kindVerdict cfg v = none ↔ ∃ kind, v = some (.num kind) ∧ str kind.text ∉ cfg.kindDeny := by
  unfold kindVerdict
  split
  · next kind =>
    split_ifs with denied
    · simp [List.contains_iff_mem.mp denied]
    · exact iff_of_true rfl ⟨kind,rfl,fun member => denied (List.contains_iff_mem.mpr member)⟩
  · next other =>
    refine iff_of_false (by simp) ?_
    rintro ⟨kind,same,_⟩
    exact other kind same

section Session
variable {env : Env} {callbacks : List Callback} {m : Bytes}

theorem event_passes {cfg : Cfg} {lim : Limits} {args : List Json} (passed : (event env cfg lim args).1 = none) :
    ∃ ev, args.head? = some (.obj ev) ∧ kindVerdict cfg (property ev (str "kind")) = none := by
  have found := paying_passes passed
  split at found
  · next ev first =>
    refine ⟨ev,first,?_⟩
    split at found
    · next kind read =>
      split_ifs at found with denied
      exact kindVerdict_none.mpr ⟨kind,read,denied⟩
    · contradiction
  · contradiction

/-- The type of a forwarded message is allowed, and an event passes the check of its kind. -/
theorem Forwards.speaks (forwards : Forwards env callbacks m) :
    ∃ t args, said m = some (t,args) ∧ t ∈ (readCfg env).types ∧ (t = str "EVENT" →
      ∃ ev, args.head? = some (.obj ev) ∧ kindVerdict (readCfg env) (property ev (str "kind")) = none) := by
  obtain ⟨lim,passed⟩ := forwards.passed
  obtain ⟨t,args,spoken,allowed,later,typed⟩ := police_speaks passed
  refine ⟨t,args,spoken,allowed,?_⟩
  intro isEvent
  rw [byType,if_pos isEvent] at typed
  exact event_passes typed

/-- A forwarded message has an entry of the list for its type, and for an EVENT no entry of
the list of kinds for its kind, if and only if the list of types is not empty. -/
theorem forwarded_listed_iff {raw v w : Str} (set : env.policy = some raw) (types : Binds raw "nostr_types" v)
    (kinds : Binds raw "nostr_kind_deny" w) (forwards : Forwards env callbacks m) : Admitted v w m ↔ v ≠ [] := by
  have allowed : (readCfg env).types = keyset (some v) (str defaultTypes) := by
    rw [readCfg,set,(lookup_iff raw _ v).mpr types]
  have denied : (readCfg env).kindDeny = keyset (some w) [] := by
    rw [readCfg,set,(lookup_iff raw _ w).mpr kinds]
  obtain ⟨t,args,spoken,member,check⟩ := forwards.speaks
  rw [allowed,keyset_iff] at member
  constructor
  · rintro ⟨t',args',spoken',entry,_⟩ rfl
    rw [spoken] at spoken'
    obtain ⟨rfl,rfl⟩ := Prod.mk.inj (Option.some.inj spoken')
    rw [listed_nil,List.mem_singleton] at entry
    exact member.2 entry
  · intro filled
    rw [if_neg filled] at member
    refine ⟨t,args,spoken,member.1,?_⟩
    intro isEvent
    obtain ⟨ev,first,passed⟩ := check isEvent
    obtain ⟨kind,read,free⟩ := kindVerdict_none.mp passed
    refine ⟨ev,kind,first,read,?_⟩
    intro entry
    rw [denied,keyset_iff] at free
    apply free
    refine ⟨?_,text_filled kind⟩
    split_ifs with empty
    · rwa [empty] at entry
    · exact entry

theorem forwarded_listed_event :
    Admitted (str "EVENT, CLOSE") (str "4") (bytes "[\"EVENT\",\x7b\"kind\":1\x7d]") :=
  (@forwarded_listed_iff (listener "nostr_types=EVENT, CLOSE;nostr_kind_deny=4")
    [sends upgradeRequest,sends (message "[\"EVENT\",\x7b\"kind\":1\x7d]")] (bytes "[\"EVENT\",\x7b\"kind\":1\x7d]")
    (str "nostr_types=EVENT, CLOSE;nostr_kind_deny=4") (str "EVENT, CLOSE") (str "4") rfl
    ((lookup_iff _ _ _).mp (by decide +kernel)) ((lookup_iff _ _ _).mp (by decide +kernel))
    (forwards_iff.mpr (by decide +kernel))).mpr (by decide +kernel)

/-- An empty list of types lets a CLOSE through. -/
theorem unlisted_forwarded : Binds (str "nostr_types=;nostr_kind_deny=") "nostr_types" [] ∧
    Binds (str "nostr_types=;nostr_kind_deny=") "nostr_kind_deny" [] ∧
    Forwards (listener "nostr_types=;nostr_kind_deny=") [sends upgradeRequest,sends (message "[\"CLOSE\",\"a\"]")]
      (bytes "[\"CLOSE\",\"a\"]") ∧
    ¬ Admitted [] [] (bytes "[\"CLOSE\",\"a\"]") := by
  refine ⟨(lookup_iff _ _ _).mp (by decide +kernel),(lookup_iff _ _ _).mp (by decide +kernel),
    forwards_iff.mpr (by decide +kernel),?_⟩
  rintro ⟨t,args,spoken,entry,_⟩
  have named : (said (bytes "[\"CLOSE\",\"a\"]")).map Prod.fst = some (str "CLOSE") := by decide +kernel
  rw [spoken] at named
  obtain rfl := Option.some.inj named
  exact absurd entry (by decide +kernel)

end Session

/-! ## Repeated members -/

/-- How a parser resolves a repeated key. -/
inductive Reading where
  | firstWins | lastWins

def Reading.property : Reading → List (Str × Json) → Str → Option Json
  | .firstWins,members,key => (members.find? fun member => member.1 == key).map Prod.snd
  | .lastWins,members,key => Json.property members key

def Repeated (members : List (Str × Json)) (key : Str) : Prop := 1 < (members.map Prod.fst).count key

/-- The value is a number whose text the policy denies. -/
def Denied (cfg : Cfg) (v : Option Json) : Prop := ∃ kind, v = some (.num kind) ∧ str kind.text ∈ cfg.kindDeny

theorem first_eq_last {members : List (Str × Json)} {key : Str} (once : ¬ Repeated members key) :
    Reading.firstWins.property members key = Reading.lastWins.property members key := by
  have few : (members.filter fun member => member.1 == key).length ≤ 1 := by
    rw [Repeated,List.count,List.countP_map,List.countP_eq_length_filter] at once
    exact Nat.not_lt.mp once
  simp only [Reading.property,Json.property,← List.head?_filter,List.filter_reverse]
  generalize members.filter (fun member => member.1 == key) = own at few
  cases own with
  | nil => rfl
  | cons first more =>
    cases more with
    | nil => rfl
    | cons second others => simp at few

theorem allowed_not_denied {cfg : Cfg} {v : Option Json} (allowed : kindVerdict cfg v = none) : ¬ Denied cfg v := by
  rintro ⟨kind,same,denied⟩
  obtain ⟨kind',same',free⟩ := kindVerdict_none.mp allowed
  rw [same] at same'
  obtain rfl := Json.num.inj (Option.some.inj same')
  exact free denied

section Session
variable {env : Env} {callbacks : List Callback} {m : Bytes}

/-- The kind an EVENT has for a parser that keeps the first of repeated members. -/
def firstKind (m : Bytes) : Option Number :=
  match said m with
  | some (_,.obj ev::_) => match Reading.firstWins.property ev (str "kind") with
    | some (.num kind) => some kind
    | _ => none
  | _ => none

theorem firstKind_some {kind : Number} (read : firstKind m = some kind) : ∃ t ev rest,
    said m = some (t,.obj ev::rest) ∧ Reading.firstWins.property ev (str "kind") = some (.num kind) := by
  unfold firstKind at read
  split at read
  · next t ev rest spoken =>
    split at read
    · next kind' found =>
      obtain rfl := Option.some.inj read
      exact ⟨t,ev,rest,spoken,found⟩
    · contradiction
  · contradiction

/-- No reading of the `kind` of a forwarded event is a kind the policy denies if and only if
no first of several values is; and every reading passes the check if and only if the first
of several does. -/
theorem forwarded_readings_iff (forwards : Forwards env callbacks m)
    (isEvent : (said m).map Prod.fst = some (str "EVENT")) : ∃ ev rest, said m = some (str "EVENT",.obj ev::rest) ∧
      ((∀ reading : Reading, ¬ Denied (readCfg env) (reading.property ev (str "kind"))) ↔
        ¬ (Repeated ev (str "kind") ∧ Denied (readCfg env) (Reading.firstWins.property ev (str "kind")))) ∧
      ((∀ reading : Reading, kindVerdict (readCfg env) (reading.property ev (str "kind")) = none) ↔
        (Repeated ev (str "kind") →
          kindVerdict (readCfg env) (Reading.firstWins.property ev (str "kind")) = none)) := by
  obtain ⟨t,args,spoken,_,check⟩ := forwards.speaks
  rw [spoken] at isEvent
  obtain rfl := Option.some.inj isEvent
  obtain ⟨ev,first,passed⟩ := check rfl
  obtain ⟨rest,rfl⟩ := List.head?_eq_some_iff.mp first
  have last : kindVerdict (readCfg env) (Reading.lastWins.property ev (str "kind")) = none := passed
  refine ⟨ev,rest,spoken,⟨?_,?_⟩,⟨fun allowed _ => allowed .firstWins,?_⟩⟩
  · rintro free ⟨_,denied⟩
    exact free .firstWins denied
  · intro harmless reading
    cases reading with
    | lastWins => exact allowed_not_denied last
    | firstWins =>
      intro denied
      by_cases repeats : Repeated ev (str "kind")
      · exact harmless ⟨repeats,denied⟩
      · rw [first_eq_last repeats] at denied
        exact allowed_not_denied last denied
  · intro repeated reading
    cases reading with
    | lastWins => exact last
    | firstWins =>
      by_cases repeats : Repeated ev (str "kind")
      · exact repeated repeats
      · rw [first_eq_last repeats]
        exact last

def twoKinds : String := "[\"EVENT\",\x7b\"kind\":4,\"kind\":1\x7d]"

def denying : Env := listener "nostr_kind_deny=4"

def harmlessKinds : String := "[\"EVENT\",\x7b\"kind\":7,\"kind\":1\x7d]"

theorem forwarded_readings_two : ∃ ev rest, said (bytes harmlessKinds) = some (str "EVENT",.obj ev::rest) ∧
    (∀ reading : Reading, ¬ Denied (readCfg denying) (reading.property ev (str "kind"))) ∧
    ∀ reading : Reading, kindVerdict (readCfg denying) (reading.property ev (str "kind")) = none := by
  obtain ⟨ev,rest,spoken,free,passes⟩ := @forwarded_readings_iff denying
    [sends upgradeRequest,sends (message harmlessKinds)] (bytes harmlessKinds) (forwards_iff.mpr (by decide +kernel))
    (by decide +kernel)
  have read : firstKind (bytes harmlessKinds) = some 7 := by decide +kernel
  obtain ⟨t,ev',rest',spoken',found⟩ := firstKind_some read
  rw [spoken] at spoken'
  obtain ⟨_,⟨⟩,_⟩ : str "EVENT" = t ∧ Json.obj ev = .obj ev' ∧ rest = rest' := by simpa using spoken'
  have first : kindVerdict (readCfg denying) (Reading.firstWins.property ev (str "kind")) = none := by
    rw [found]
    decide +kernel
  exact ⟨ev,rest,spoken,free.mpr fun both => allowed_not_denied first both.2,passes.mpr fun _ => first⟩

/-- An event of kind 1 for the engine, of the denied kind 4 for a parser that keeps the first. -/
theorem twoKinds_forwarded : Forwards denying [sends upgradeRequest,sends (message twoKinds)] (bytes twoKinds) ∧
    ∃ t ev rest, said (bytes twoKinds) = some (t,.obj ev::rest) ∧
      Denied (readCfg denying) (Reading.firstWins.property ev (str "kind")) := by
  refine ⟨forwards_iff.mpr (by decide +kernel),?_⟩
  have read : firstKind (bytes twoKinds) = some 4 := by decide +kernel
  obtain ⟨t,ev,rest,spoken,found⟩ := firstKind_some read
  exact ⟨t,ev,rest,spoken,4,found,by decide +kernel⟩

end Session

end FipsShield.Engine
