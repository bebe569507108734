import FipsShield.Charges
import Mathlib.Algebra.BigOperators.Group.Finset.Basic

/-! The cost of a query: which lists of filters `checkFilters` lets through, put as
what each filter is, and that no other query reaches the relay. -/
namespace FipsShield.Engine
open Text FipsShield.Core Json

/-! ## What a query may ask -/

def names (f : List (Str × Json)) : Finset Str := (f.map Prod.fst).toFinset

/-- The strings that are the value itself or elements of it. -/
def strings : Json → List Str
  | .str s => [s]
  | .arr vs => vs.filterMap fun
    | .str s => some s
    | _ => none
  | _ => []

def Narrows (key : Str) : Prop := key ∈ narrowing ∨ key.head? = some 0x23

structure Selects (cfg : Cfg) (f : List (Str × Json)) : Prop where
  narrows : cfg.requireNarrowing = true → ∃ key ∈ names f, Narrows key
  limited : ∀ n, property f (str "limit") = some (.num n) → ¬ cfg.maxLimit < n
  short : ∀ key ∈ names f, ∀ v, property f key = some v → ∀ s ∈ strings v,
    (s.length : Number) ≤ cfg.maxFilterValue

def items (f : List (Str × Json)) : Nat :=
  (names f).card + ∑ key ∈ names f, ((property f key).map valueItems).getD 0

def cost : Option Json → Nat
  | some (.obj f) => items f
  | _ => 0

/-- The filters of a query are objects that each select something, and together they
are within the budget. -/
structure Affordable (cfg : Cfg) (filters : List (Option Json)) : Prop where
  asks : 1 ≤ filters.length
  few : (filters.length : Number) ≤ cfg.maxFilters
  objects : ∀ f ∈ filters, ∃ members, f = some (.obj members) ∧ Selects cfg members
  total : ((filters.map cost).sum : Number) ≤ cfg.maxFilterItems

/-! ## One filter -/

section Filter
variable {cfg : Cfg} {f : List (Str × Json)}

theorem mem_keys {key : Str} : key ∈ keys f ↔ key ∈ names f := by
  simp only [keys,List.mem_append,List.mem_mergeSort,List.mem_filter,List.mem_reverse,List.mem_dedup,
    names,List.mem_toFinset]
  rw [← and_or_left]
  cases arrayIndex key <;> simp

theorem keys_nodup (f : List (Str × Json)) : (keys f).Nodup := by
  have written : (f.map Prod.fst).reverse.dedup.reverse.Nodup := List.nodup_reverse.mpr (List.nodup_dedup _)
  apply List.Nodup.append
  · exact (List.mergeSort_perm _ _).nodup_iff.mpr (written.filter _)
  · exact written.filter _
  · intro key index name
    have present := (List.mem_filter.mp (List.mem_mergeSort.mp index)).2
    have absent := (List.mem_filter.mp name).2
    cases found : arrayIndex key <;> simp [found] at present absent

theorem keys_toFinset (f : List (Str × Json)) : (keys f).toFinset = names f := by
  ext key
  rw [List.mem_toFinset,mem_keys]

theorem property_some {key : Str} (member : key ∈ names f) : ∃ v, property f key = some v := by
  obtain ⟨entry,within,rfl⟩ := List.mem_map.mp (List.mem_toFinset.mp member)
  have found : (f.reverse.find? fun other => other.1 == entry.1).isSome := by
    rw [List.find?_isSome]
    exact ⟨entry,List.mem_reverse.mpr within,beq_self_eq_true _⟩
  obtain ⟨last,same⟩ := Option.isSome_iff_exists.mp found
  exact ⟨last.2,by rw [property,same]; rfl⟩

theorem items_eq (f : List (Str × Json)) :
    (keys f).length + (((keys f).filterMap (property f)).map valueItems).sum = items f := by
  have values : ∀ ks : List Str, (∀ key ∈ ks, key ∈ names f) →
      ((ks.filterMap (property f)).map valueItems).sum =
        (ks.map fun key => ((property f key).map valueItems).getD 0).sum := by
    intro ks within
    induction ks with
    | nil => rfl
    | cons key rest ih =>
      obtain ⟨v,found⟩ := property_some (within key (by simp))
      have later := ih fun other member => within other (by simp [member])
      simp [found,later]
  rw [items,values _ fun key => mem_keys.mp,← keys_toFinset,List.toFinset_card_of_nodup (keys_nodup f),
    List.sum_toFinset _ (keys_nodup f)]

theorem isNarrowing_iff (ks : List Str) : isNarrowing ks = true ↔ ∃ key ∈ ks, Narrows key := by
  simp [isNarrowing,Narrows,or_comm]

theorem overLimit_none : overLimit cfg f = none ↔
    ∀ n, property f (str "limit") = some (.num n) → ¬ cfg.maxLimit < n := by
  unfold overLimit
  split
  · next n found => simp [found]
  · next other =>
    refine iff_of_true rfl ?_
    intro n found
    exact absurd found (other n)

theorem longText_none (number : cfg.maxFilterValue ≠ .nan) (s : Str) :
    longText cfg (.str s) = none ↔ (s.length : Number) ≤ cfg.maxFilterValue := by
  rw [← Number.not_lt_iff_le _ _ number,longText]
  simp

theorem longValue_none (number : cfg.maxFilterValue ≠ .nan) (v : Json) : longValue cfg v = none ↔
    ∀ s ∈ strings v, (s.length : Number) ≤ cfg.maxFilterValue := by
  cases v with
  | arr vs =>
    rw [longValue,List.findSome?_eq_none_iff]
    simp only [strings,List.mem_filterMap]
    constructor
    · rintro short s ⟨v,member,same⟩
      cases v with
      | str t =>
        obtain rfl := Option.some.inj same
        exact (longText_none number t).mp (short _ member)
      | _ => cases same
    · intro short v member
      cases v with
      | str t => exact (longText_none number t).mpr (short t ⟨_,member,rfl⟩)
      | _ => rfl
  | str s =>
    have whole : longValue cfg (.str s) = longText cfg (.str s) := rfl
    rw [whole,longText_none number]
    simp [strings]
  | _ => exact iff_of_true rfl (by simp [strings])

theorem values_short (number : cfg.maxFilterValue ≠ .nan) :
    ((keys f).filterMap (property f)).findSome? (longValue cfg) = none ↔
      ∀ key ∈ names f, ∀ v, property f key = some v → ∀ s ∈ strings v, (s.length : Number) ≤ cfg.maxFilterValue := by
  rw [List.findSome?_eq_none_iff]
  simp only [List.mem_filterMap,longValue_none number]
  constructor
  · intro short key member v found
    exact short v ⟨key,mem_keys.mpr member,found⟩
  · rintro short v ⟨key,member,found⟩
    exact short key (mem_keys.mp member) v found

theorem checkFilter_ok (number : cfg.maxFilterValue ≠ .nan) (f : Option Json) (n : Nat) :
    checkFilter cfg f = .ok n ↔ (∃ members, f = some (.obj members) ∧ Selects cfg members) ∧ n = cost f := by
  unfold checkFilter
  split
  · next f =>
    have narrowed : (cfg.requireNarrowing && !isNarrowing (keys f)) = true ↔
        ¬ (cfg.requireNarrowing = true → ∃ key ∈ names f, Narrows key) := by
      have same : (∃ key ∈ keys f, Narrows key) ↔ ∃ key ∈ names f, Narrows key := by simp only [mem_keys]
      rw [← same,← isNarrowing_iff]
      simp
    have selects : (∃ members, some (Json.obj f) = some (.obj members) ∧ Selects cfg members) ↔ Selects cfg f := by
      simp
    rw [selects]
    dsimp only
    split_ifs with wide
    · exact iff_of_false (by simp) fun both => narrowed.mp wide both.1.narrows
    · cases above : overLimit cfg f with
      | some v =>
        refine iff_of_false (by simp) fun both => ?_
        rw [overLimit_none.mpr both.1.limited] at above
        contradiction
      | none =>
        cases long : ((keys f).filterMap (property f)).findSome? (longValue cfg) with
        | some v =>
          refine iff_of_false (by simp) fun both => ?_
          rw [(values_short number).mpr both.1.short] at long
          contradiction
        | none =>
          have good : Selects cfg f := ⟨not_not.mp (narrowed.not.mp wide),overLimit_none.mp above,(values_short number).mp long⟩
          simp only [good,true_and,cost,← items_eq,Except.ok.injEq]
          exact eq_comm
  · next other =>
    refine iff_of_false (by simp) ?_
    rintro ⟨⟨members,rfl,_⟩,_⟩
    exact other members rfl

theorem filterItems_ok (number : cfg.maxFilterValue ≠ .nan) (filters : List (Option Json)) (n : Nat) :
    filterItems cfg filters = .ok n ↔
      (∀ f ∈ filters, ∃ members, f = some (.obj members) ∧ Selects cfg members) ∧ n = (filters.map cost).sum := by
  induction filters generalizing n with
  | nil => simp [filterItems,eq_comm]
  | cons f rest ih =>
    rw [filterItems,List.forall_mem_cons,List.map_cons,List.sum_cons]
    cases first : checkFilter cfg f with
    | error v =>
      refine iff_of_false (by simp) fun both => ?_
      rw [(checkFilter_ok number f (cost f)).mpr ⟨both.1.1,rfl⟩] at first
      contradiction
    | ok own =>
      obtain ⟨object,rfl⟩ := (checkFilter_ok number f own).mp first
      cases later : filterItems cfg rest with
      | error v =>
        refine iff_of_false (by simp) fun both => ?_
        rw [(ih _).mpr ⟨both.1.2,rfl⟩] at later
        contradiction
      | ok others =>
        obtain ⟨objects,rfl⟩ := (ih others).mp later
        simp only [Except.ok.injEq]
        exact ⟨fun same => ⟨⟨object,objects⟩,same.symm⟩,fun both => both.2.symm⟩

end Filter

/-! ## The policy -/

theorem num_ne_nan (v : Option Str) {dflt : Number} (number : dflt ≠ .nan) : Core.num v dflt ≠ .nan := by
  simp only [Core.num]
  split_ifs with missing
  · exact number
  · exact missing

theorem checkFilters_none (env : Env) (filters : List (Option Json)) :
    checkFilters (readCfg env) filters = none ↔ Affordable (readCfg env) filters := by
  have few : (readCfg env).maxFilters ≠ .nan := num_ne_nan _ (by decide)
  have budget : (readCfg env).maxFilterItems ≠ .nan := num_ne_nan _ (by decide)
  have length : (readCfg env).maxFilterValue ≠ .nan := num_ne_nan _ (by decide)
  simp only [checkFilters]
  split_ifs with empty many
  · exact iff_of_false (by simp) fun affordable => absurd affordable.asks (by omega)
  · exact iff_of_false (by simp) fun affordable => (Number.not_lt_iff_le _ _ few).mpr affordable.few many
  · have room := (Number.not_lt_iff_le _ _ few).mp many
    cases counted : filterItems (readCfg env) filters with
    | error v =>
      refine iff_of_false (by simp) fun affordable => ?_
      rw [(filterItems_ok length filters _).mpr ⟨affordable.objects,rfl⟩] at counted
      contradiction
    | ok n =>
      obtain ⟨objects,rfl⟩ := (filterItems_ok length filters n).mp counted
      simp only
      split_ifs with above
      · exact iff_of_false (by simp) fun affordable => (Number.not_lt_iff_le _ _ budget).mpr affordable.total above
      · exact iff_of_true rfl ⟨Nat.not_lt.mp empty,room,objects,(Number.not_lt_iff_le _ _ budget).mp above⟩

/-- The filters a message asks the relay to run. -/
def asked (t : Str) (args : List Json) : Option (List (Option Json)) :=
  if t = str "REQ" ∨ t = str "COUNT" then some (args.tail.map some)
  else if t = str "NEG-OPEN" then some [args.tail.head?]
  else none

section Police
variable {env : Env} {cfg : Cfg} {lim : Limits}

theorem paying_passes {meter : Meter} {next : Limits → Option Violation × Limits}
    (passed : (paying env lim meter next).1 = none) : (next (charge env lim meter).2).1 = none := by
  simp only [paying] at passed
  split_ifs at passed
  exact passed

theorem query_asks {sid : Option Json} {filters : List (Option Json)} {opens : Bool}
    (passed : (query env cfg lim sid filters opens).1 = none) : checkFilters cfg filters = none := by
  have named := paying_passes passed
  split at named
  · contradiction
  · split at named
    · contradiction
    · assumption

theorem byType_asks {t : Str} {args : List Json} {filters : List (Option Json)}
    (passed : (byType env cfg lim t args).1 = none) (asks : asked t args = some filters) :
    checkFilters cfg filters = none := by
  unfold asked at asks
  split_ifs at asks with isRequest isNegOpen
  · have kind : t ≠ str "EVENT" := by rcases isRequest with rfl | rfl <;> decide +kernel
    obtain rfl := Option.some.inj asks
    rw [byType,if_neg kind,if_pos isRequest] at passed
    exact query_asks passed
  · have kind : t ≠ str "EVENT" := by rw [isNegOpen]; decide +kernel
    obtain rfl := Option.some.inj asks
    rw [byType,if_neg kind,if_neg isRequest,if_pos isNegOpen] at passed
    exact query_asks passed

theorem police_asks {buf : Bytes} {t : Str} {args : List Json} {filters : List (Option Json)}
    (passed : (police env cfg lim buf).1 = none) (spoken : said buf = some (t,args))
    (asks : asked t args = some filters) : checkFilters cfg filters = none := by
  have parsed := paying_passes passed
  unfold said at spoken
  obtain ⟨msg,read,typed⟩ := Option.bind_eq_some_iff.mp spoken
  simp only [read,typed] at parsed
  split_ifs at parsed
  exact byType_asks parsed asks

end Police

/-- Every query among the messages asks for what the policy affords. -/
def AllAffordable (cfg : Cfg) (messages : List Bytes) : Prop :=
  ∀ buf ∈ messages, ∀ t args, said buf = some (t,args) → ∀ filters, asked t args = some filters → Affordable cfg filters

theorem affordable_polices (env : Env) :
    Polices env (readCfg env) fun _ messages => AllAffordable (readCfg env) messages where
  tick _ _ _ _ holds := holds
  police lim messages buf holds := by
    split_ifs with passed
    · refine List.forall_mem_append.mpr ⟨holds,List.forall_mem_singleton.mpr ?_⟩
      intro t args spoken filters asks
      exact (checkFilters_none env filters).mp (police_asks passed spoken asks)
    · rw [List.append_nil]
      exact holds

/-- A list of filters passes exactly when the policy affords it, wherever in the message
the costly part sits, and the relay receives no query that the policy does not afford. -/
theorem queries_affordable (env : Env) :
    (∀ filters, checkFilters (readCfg env) filters = none ↔ Affordable (readCfg env) filters) ∧
      ∀ callbacks, (session env callbacks).1.mode = .ws → ∃ head body sent,
        CutHead (clientStream callbacks) head ∧ clientStream callbacks = head ++ body ∧
          forwardedUp (session env callbacks).2 = fromString (Text.toString head) ++ sent ∧
          AllAffordable (readCfg env) (assemble (Frame.split sent).1).messages := by
  refine ⟨checkFilters_none env,?_⟩
  intro callbacks upgraded
  obtain ⟨head,body,sent,cut,stream,forwarded,messages⟩ := session_forwarded env callbacks upgraded
  refine ⟨head,body,sent,cut,stream,forwarded,?_⟩
  rw [messages]
  exact session_limits env (affordable_polices env) (by simp [AllAffordable]) callbacks

end FipsShield.Engine
