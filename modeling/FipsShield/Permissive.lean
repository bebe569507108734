import FipsShield.Limits
import FipsShield.Library.Monotone
import Mathlib.Data.Int.ConditionallyCompleteOrder
import Mathlib.Tactic.Linarith

/-! What `inspect` makes of a message under two policies of which one is at least as
permissive in every knob as the other. -/
namespace FipsShield.Engine
open Text FipsShield.Core Json

/-- A bucket that is fed at least as fast and holds at least as much. -/
structure Bucket.Loosens (p q : Bucket) : Prop where
  nonneg : 0 ≤ p.rate
  rate : p.rate ≤ q.rate
  burst : p.burst ≤ q.burst

/-- The second policy is at least as permissive as the first in every knob. -/
structure Loosens (p q : Cfg) : Prop where
  maxMsg : p.maxMsg ≤ q.maxMsg
  maxSubs : p.maxSubs ≤ q.maxSubs
  maxFilters : p.maxFilters ≤ q.maxFilters
  maxFilterItems : p.maxFilterItems ≤ q.maxFilterItems
  maxLimit : p.maxLimit ≤ q.maxLimit
  maxFilterValue : p.maxFilterValue ≤ q.maxFilterValue
  requireNarrowing : q.requireNarrowing = true → p.requireNarrowing = true
  maxHsReads : p.maxHsReads ≤ q.maxHsReads
  maxMsgReads : p.maxMsgReads ≤ q.maxMsgReads
  bMsg : p.bMsg.Loosens q.bMsg
  bEvent : p.bEvent.Loosens q.bEvent
  bReq : p.bReq.Loosens q.bReq
  types : ∀ t ∈ p.types, t ∈ q.types
  kindDeny : ∀ kind ∈ q.kindDeny, kind ∈ p.kindDeny

section Filters
variable {p q : Cfg} (loosens : Loosens p q)
include loosens

theorem longText_loosens {v : Json} (short : longText p v = none) : longText q v = none := by
  cases v with
  | str s =>
    simp only [longText] at short ⊢
    split_ifs at short with long
    apply if_neg
    intro longer
    exact long (Number.lt_of_le_of_lt loosens.maxFilterValue longer)
  | null => rfl
  | bool b => rfl
  | num n => rfl
  | arr vs => rfl
  | obj f => rfl

theorem longValue_loosens {v : Json} (short : longValue p v = none) : longValue q v = none := by
  cases v with
  | arr vs =>
    rw [longValue,List.findSome?_eq_none_iff] at short ⊢
    intro v member
    exact longText_loosens loosens (short v member)
  | _ =>
    simp only [longValue] at short ⊢
    exact longText_loosens loosens short

theorem overLimit_loosens {f : List (Str × Json)} (within : overLimit p f = none) : overLimit q f = none := by
  unfold overLimit at within ⊢
  split at within
  · split_ifs at within with large
    apply if_neg
    intro larger
    exact large (Number.lt_of_le_of_lt loosens.maxLimit larger)
  · rfl

theorem checkFilter_loosens {f : Option Json} {items : Nat} (passed : checkFilter p f = .ok items) :
    checkFilter q f = .ok items := by
  unfold checkFilter at passed ⊢
  split at passed
  · next f =>
    simp only at passed ⊢
    split_ifs at passed with unbounded
    have narrow : ¬ (q.requireNarrowing && !isNarrowing (keys f)) = true := by
      intro unbounded'
      rw [Bool.and_eq_true] at unbounded unbounded'
      exact unbounded ⟨loosens.requireNarrowing unbounded'.1,unbounded'.2⟩
    rw [if_neg narrow]
    split at passed
    · contradiction
    · next within =>
      rw [overLimit_loosens loosens within]
      split at passed
      · contradiction
      · next short =>
        have shorter : ((keys f).filterMap (property f)).findSome? (longValue q) = none := by
          rw [List.findSome?_eq_none_iff] at short ⊢
          intro v member
          exact longValue_loosens loosens (short v member)
        simp only [shorter]
        exact passed
  · contradiction

theorem filterItems_loosens {filters : List (Option Json)} {items : Nat}
    (passed : filterItems p filters = .ok items) : filterItems q filters = .ok items := by
  induction filters generalizing items with
  | nil => exact passed
  | cons f rest ih =>
    simp only [filterItems] at passed ⊢
    cases first : checkFilter p f with
    | error v => simp [first] at passed
    | ok own =>
      cases later : filterItems p rest with
      | error v => simp [first,later] at passed
      | ok others =>
        rw [checkFilter_loosens loosens first,ih later]
        simpa [first,later] using passed

theorem checkFilters_loosens {filters : List (Option Json)} (passed : checkFilters p filters = none) :
    checkFilters q filters = none := by
  simp only [checkFilters] at passed ⊢
  split_ifs at passed with none many
  have few : ¬ q.maxFilters < (filters.length : Number) := by
    intro more
    exact many (Number.lt_of_le_of_lt loosens.maxFilters more)
  rw [if_neg none,if_neg few]
  cases counted : filterItems p filters with
  | error v => simp [counted] at passed
  | ok items =>
    simp only [counted] at passed
    split_ifs at passed with large
    rw [filterItems_loosens loosens counted]
    apply if_neg
    intro larger
    exact large (Number.lt_of_le_of_lt loosens.maxFilterItems larger)

end Filters

/-- A bucket of the looser run: nothing the stricter one can pay for is refused by it. -/
structure Fuller (a b : Bucket) : Prop where
  loosens : a.Loosens b
  fed : a.rate = .posInf → a.burst ≠ .negInf ∧ a.tokens ≠ .negInf
  time : b.t = a.t
  tokens : Number.Covers a.tokens b.tokens

def Bucket.refilled (b : Bucket) (now : Int) : Number :=
  Number.min b.burst (b.tokens + .fin ((now - b.t : Int) / 1000) * b.rate)

theorem takeToken_enough {b : Bucket} {now : Int} : (takeToken b now).1 = true ↔ ¬ b.refilled now < 1 := by
  simp only [takeToken,Bucket.refilled]
  split_ifs with short
  · exact iff_of_false (by simp) (not_not_intro short)
  · exact iff_of_true rfl short

theorem takeToken_left {b : Bucket} {now : Int} (taken : (takeToken b now).1 = true) :
    (takeToken b now).2 = {b with tokens := b.refilled now - 1,t := now} := by
  have enough := takeToken_enough.mp taken
  simp only [takeToken,Bucket.refilled] at enough ⊢
  rw [if_neg enough]

/-- Refilling at an infinite rate leaves no bucket empty without bound. -/
theorem refilled_fed {b : Bucket} (infinite : b.rate = .posInf) (burst : b.burst ≠ .nan)
    (fed : b.burst ≠ .negInf ∧ b.tokens ≠ .negInf) {now : Int} (forward : (0 : ℚ) ≤ (now - b.t : Int) / 1000) :
    b.refilled now - 1 ≠ .negInf := by
  have some (n : Number) (above : n ≠ .negInf) : n - 1 ≠ .negInf := by
    intro none
    cases n with
    | negInf => exact above rfl
    | nan => cases none
    | fin q => cases none
    | posInf => cases none
  apply some
  rw [Bucket.refilled,infinite]
  rcases Number.fin_mul_posInf forward with ⟨none,_⟩ | all
  · have nothing : b.tokens + .nan = .nan := by cases b.tokens <;> rfl
    rw [none,nothing,Number.min,if_pos (Or.inr rfl)]
    exact fun same => by cases same
  · rw [all]
    cases tokens : b.tokens with
    | negInf => exact absurd tokens fed.2
    | nan =>
      have nothing : Number.nan + .posInf = .nan := rfl
      rw [nothing,Number.min,if_pos (Or.inr rfl)]
      exact fun same => by cases same
    | _ =>
      rw [Number.min,if_neg (by rintro (none | none); exact burst none; cases none)]
      split_ifs
      · exact fun same => by cases same
      · exact fed.1

/-- What the stricter bucket can pay for the other can too, and stays ahead. -/
theorem Fuller.take {a b : Bucket} (fuller : Fuller a b) {now : Int} (forward : a.t ≤ now)
    (taken : (takeToken a now).1 = true) :
    (takeToken b now).1 = true ∧ Fuller (takeToken a now).2 (takeToken b now).2 := by
  have elapsed : (0 : ℚ) ≤ ((now - a.t : Int) : ℚ) / 1000 := by
    apply div_nonneg
    · exact_mod_cast sub_nonneg.mpr forward
    · norm_num
  have flows := Number.Covers.mul elapsed fuller.loosens.nonneg fuller.loosens.rate
  obtain ⟨upward,endless⟩ := Number.fin_mul_bounds elapsed fuller.loosens.nonneg
  have apart : a.tokens ≠ .negInf ∨ .fin ((now - a.t : Int) / 1000) * a.rate ≠ .posInf := by
    by_cases infinite : a.rate = .posInf
    · exact Or.inl (fuller.fed infinite).2
    · exact Or.inr fun all => infinite (endless all)
  have covers : Number.Covers (a.refilled now) (b.refilled now) := by
    rw [Bucket.refilled,Bucket.refilled,fuller.time]
    exact (fuller.tokens.add flows apart upward).min fuller.loosens.burst
  have enough := covers.not_lt (takeToken_enough.mp taken)
  refine ⟨takeToken_enough.mpr enough,?_⟩
  rw [takeToken_left taken,takeToken_left (takeToken_enough.mpr enough)]
  refine ⟨⟨fuller.loosens.nonneg,fuller.loosens.rate,fuller.loosens.burst⟩,?_,rfl,covers.sub_one⟩
  intro endless
  have infinite : a.rate = .posInf := endless
  have fed := fuller.fed infinite
  have number : a.burst ≠ .nan := (Number.ne_nan_of_le fuller.loosens.burst).1
  have left : a.refilled now - 1 ≠ .negInf := refilled_fed infinite number fed elapsed
  exact ⟨fed.1,left⟩

/-- The limits of the looser run: the same subscriptions, and fuller buckets. -/
structure Roomier (env : Env) (a b : Limits) : Prop where
  ticks : b.ticks = a.ticks
  subs : b.subs = a.subs
  subCount : b.subCount = a.subCount
  buckets : ∀ meter, Fuller (a.bucket meter) (b.bucket meter)
  past : ∀ meter, (a.bucket meter).t ≤ env.now a.ticks

/-- What the stricter inspection accepts the other does, and its limits stay roomier. -/
def Allows (env : Env) (one other : Option Violation × Limits) : Prop :=
  one.1 = none → other.1 = none ∧ Roomier env one.2 other.2

section Police
variable {env looser : Env} {p q : Cfg} (clock : looser.now = env.now) (monotone : Monotone env.now)
  (loosens : Loosens p q) {a b : Limits}

theorem Allows.refuses (v : Violation) (lim : Limits) (other : Option Violation × Limits) :
    Allows env (some v,lim) other := fun accepted => by simp at accepted

theorem Roomier.allows (roomier : Roomier env a b) : Allows env (none,a) (none,b) := fun _ => ⟨rfl,roomier⟩

theorem Roomier.counted (roomier : Roomier env a b) (subs : List Str) (subCount : Nat) :
    Roomier env {a with subs,subCount} {b with subs,subCount} := by
  refine ⟨roomier.ticks,rfl,rfl,fun meter => ?_,fun meter => ?_⟩
  · have fuller := roomier.buckets meter
    cases meter <;> exact fuller
  · have past := roomier.past meter
    cases meter <;> exact past

theorem charge_parts (env : Env) (lim : Limits) (meter : Meter) : (charge env lim meter).2.subs = lim.subs ∧
    (charge env lim meter).2.subCount = lim.subCount ∧ (charge env lim meter).2.ticks = lim.ticks + 1 ∧
    ∀ other, (charge env lim meter).2.bucket other =
      if other = meter then (takeToken (lim.bucket meter) (env.now lim.ticks)).2 else lim.bucket other := by
  refine ⟨?_,?_,?_,?_⟩
  · cases meter <;> rfl
  · cases meter <;> rfl
  · cases meter <;> rfl
  · intro other
    cases meter <;> cases other <;> rfl

include clock monotone

theorem Roomier.charge (roomier : Roomier env a b) (meter : Meter) (paid : (charge env a meter).1 = true) :
    (charge looser b meter).1 = true ∧ Roomier env (charge env a meter).2 (charge looser b meter).2 := by
  obtain ⟨subs,subCount,ticks,buckets⟩ := charge_parts env a meter
  obtain ⟨subs',subCount',ticks',buckets'⟩ := charge_parts looser b meter
  obtain ⟨taken,fuller⟩ := (roomier.buckets meter).take (roomier.past meter) paid
  have reading : looser.now b.ticks = env.now a.ticks := by rw [clock,roomier.ticks]
  refine ⟨?_,?_,?_,?_,?_,?_⟩
  · rw [Engine.charge,reading]
    exact taken
  · rw [ticks,ticks',roomier.ticks]
  · rw [subs,subs',roomier.subs]
  · rw [subCount,subCount',roomier.subCount]
  · intro other
    rw [buckets,buckets',reading]
    split_ifs
    · exact fuller
    · exact roomier.buckets other
  · intro other
    rw [buckets,ticks]
    split_ifs
    · rw [takeToken_left paid]
      exact monotone (Nat.le_succ _)
    · exact (roomier.past other).trans (monotone (Nat.le_succ _))

theorem paying_allows (roomier : Roomier env a b) (meter : Meter)
    {next other : Limits → Option Violation × Limits}
    (later : ∀ a b, Roomier env a b → Allows env (next a) (other b)) :
    Allows env (paying env a meter next) (paying looser b meter other) := by
  simp only [paying]
  by_cases paid : (charge env a meter).1 = true
  · obtain ⟨taken,left⟩ := roomier.charge clock monotone meter paid
    rw [if_pos paid,if_pos taken]
    exact later _ _ left
  · rw [if_neg paid]
    exact .refuses _ _ _

include loosens

omit clock monotone in
theorem openSub_allows (roomier : Roomier env a b) (sid : Str) :
    Allows env (openSub p a sid) (openSub q b sid) := by
  unfold openSub
  rw [roomier.subs,roomier.subCount]
  by_cases known : sid ∈ a.subs
  · rw [if_pos known,if_pos known]
    exact roomier.allows
  · rw [if_neg known,if_neg known]
    by_cases full : p.maxSubs ≤ (a.subCount : Number)
    · rw [if_pos full]
      exact .refuses _ _ _
    · have room : ¬ q.maxSubs ≤ (a.subCount : Number) := fun more => full (Number.le_trans loosens.maxSubs more)
      rw [if_neg full,if_neg room]
      exact (roomier.counted _ _).allows

theorem query_allows (roomier : Roomier env a b) (sid : Option Json) (filters : List (Option Json))
    (opens : Bool) : Allows env (query env p a sid filters opens) (query looser q b sid filters opens) := by
  apply paying_allows clock monotone roomier
  intro a b roomier
  cases subscriptionId sid with
  | none => exact .refuses _ _ _
  | some name =>
    cases checked : checkFilters p filters with
    | some v => exact .refuses _ _ _
    | none =>
      simp only [checkFilters_loosens loosens checked]
      split_ifs
      · exact openSub_allows loosens roomier name
      · exact roomier.allows

theorem event_allows (roomier : Roomier env a b) (args : List Json) :
    Allows env (event env p a args) (event looser q b args) := by
  apply paying_allows clock monotone roomier
  intro a b roomier
  split
  · split
    · next kind _ =>
      by_cases denied : str kind.text ∈ p.kindDeny
      · rw [if_pos denied]
        exact .refuses _ _ _
      · rw [if_neg denied,if_neg fun still => denied (loosens.kindDeny _ still)]
        exact roomier.allows
    · exact .refuses _ _ _
  · exact .refuses _ _ _

omit clock monotone loosens in
theorem close_allows (roomier : Roomier env a b) (args : List Json) : Allows env (close a args) (close b args) := by
  unfold close
  split
  · next sid _ =>
    intro _
    refine ⟨rfl,?_⟩
    unfold closeSub
    rw [roomier.subs,roomier.subCount]
    split_ifs
    · exact roomier.counted _ _
    · exact roomier
  · exact roomier.allows

theorem byType_allows (roomier : Roomier env a b) (t : Str) (args : List Json) :
    Allows env (byType env p a t args) (byType looser q b t args) := by
  unfold byType
  split_ifs
  · exact event_allows clock monotone loosens roomier args
  · exact query_allows clock monotone loosens roomier _ _ _
  · exact query_allows clock monotone loosens roomier _ _ _
  · exact paying_allows clock monotone roomier .event fun _ _ roomier => roomier.allows
  · exact close_allows roomier args
  · exact roomier.allows

theorem police_allows (roomier : Roomier env a b) (buf : Bytes) :
    Allows env (police env p a buf) (police looser q b buf) := by
  apply paying_allows clock monotone roomier
  intro a b roomier
  split
  · exact .refuses _ _ _
  · split
    · exact .refuses _ _ _
    · next t args _ =>
      by_cases allowed : t ∈ p.types
      · rw [if_pos allowed,if_pos (loosens.types t allowed)]
        exact byType_allows clock monotone loosens roomier t args
      · rw [if_neg allowed]
        exact .refuses _ _ _

end Police

end FipsShield.Engine
