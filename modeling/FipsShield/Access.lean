import FipsShield.Core
import FipsShield.Banlist.Reader
import FipsShield.Library.NumberText
import FipsShield.Library.Transducer
import Mathlib.Data.List.AList

/-! The access hook of every listener (`access` in `core/njs/shield_core.js`), its attempts
counted by all workers in one shared dictionary: what a source may open on a port in a
window is decided by its own attempts there alone. -/
namespace FipsShield.Access
open Text Numeral FipsShield.Core Transducer
open Banlist (Found BanCache isBanned)

structure Session where
  serverPort : UInt16
  remoteAddress : Str
  deriving DecidableEq

def portOf (s : Session) : Str := natText s.serverPort.toNat

structure AccessCfg where
  service : Str
  banFile : Str
  connRate : Number
  connWindow : Number

/-- `accessCfg`, from the policy of the listening port if it declares one. -/
def accessCfg (raw : Option Str) : AccessCfg :=
  let p := policy raw
  { service := lookupOr p "service" "unknown"
    banFile := lookupOr p "ban_file" ""
    connRate := num (lookup p "conn_rate") 0
    connWindow := num (lookup p "conn_window") 60 }

/-- The shared dictionary `shield_connrate`, whose values are numbers. -/
abbrev Zone := AList fun _ : Str => Nat

/-- `dict.add`: whether the key was not there yet. -/
def Zone.add (zone : Zone) (key : Str) (value : Nat) : Bool × Zone :=
  if (zone.lookup key).isSome then (false,zone) else (true,zone.insert key value)

/-- `dict.incr`: the value after it. -/
def Zone.incr (zone : Zone) (key : Str) (delta init : Nat) : Nat × Zone :=
  let n := (zone.lookup key).getD init + delta
  (n,zone.insert key n)

def warnPeriodically (zone : Zone) (key msg : Str) : List Str × Zone :=
  let (first,zone) := zone.add key 1
  (if first then [msg] else [],zone)

/-- The window that a clock reading, in milliseconds, is in. -/
def window (cfg : AccessCfg) (now : Nat) : Number := (((now : Number).div 1000).div cfg.connWindow).floor

def counterKey (s : Session) (window : Number) : Str :=
  portOf s ++ 0x3A::(s.remoteAddress ++ 0x3A::str window.text)

def connRateExceeded (zone : Zone) (s : Session) (cfg : AccessCfg) (now : Nat) : Bool × Zone :=
  if cfg.connRate = 0 ∨ cfg.connRate = .nan then (false,zone)
  else
    let (n,zone) := zone.incr (counterKey s (window cfg now)) 1 0
    (cfg.connRate < n,zone)

def noBanFileKey (s : Session) : Str := str "__shield_warn_nobanfile:" ++ portOf s

def banLoadKey (s : Session) : Str := str "__shield_warn_banload:" ++ portOf s

def noBanFileMsg (s : Session) : Str :=
  str "shield-config no ban_file for port " ++ portOf s ++
    str ": BAN ENFORCEMENT IS DISABLED on this listener (is SHIELD_BAN_FILE set?)"

def banLoadMsg (cfg : AccessCfg) : Str :=
  str "shield-config banlist " ++ cfg.banFile ++ str " is missing or unreadable: ban enforcement is inactive"

/-- The first half of `access`: whether the source is banned, and the warnings logged. Every
connection has a machine of its own, so the cache of the banlist is new. -/
def admission (zone : Zone) (s : Session) (cfg : AccessCfg) (found : Found) (now : Nat) : Bool × List Str × Zone :=
  if cfg.banFile = [] then (false,warnPeriodically zone (noBanFileKey s) (noBanFileMsg s))
  else
    let (banned,cache) := isBanned BanCache.initial s.remoteAddress cfg.banFile found now
    (banned,if cache.loadFailed then warnPeriodically zone (banLoadKey s) (banLoadMsg cfg) else ([],zone))

/-- What an attempt comes to: the layer, rule and detail of its verdict if it is denied. -/
structure Report where
  service : Str
  warnings : List Str
  denied : Option (String × String × Str)

/-- `access`, with `Date.now()` at the ban check and at the rate check. -/
def access (zone : Zone) (s : Session) (cfg : AccessCfg) (found : Found) (now later : Nat) : Report × Zone :=
  let (banned,warnings,zone) := admission zone s cfg found now
  if banned then (⟨cfg.service,warnings,some ("ban","banned",str "rejected-at-accept")⟩,zone)
  else
    let (exceeded,zone) := connRateExceeded zone s cfg later
    if exceeded then (⟨cfg.service,warnings,some ("access","conn-rate",str "max=" ++ str cfg.connRate.text)⟩,zone)
    else (⟨cfg.service,warnings,none⟩,zone)

/-! ## Attempts by any workers -/

structure World where
  zone : Zone
  pending : List Session

/-- One step of any attempt, or the loss of an entry of the dictionary. -/
inductive Event where
  | arrive (s : Session) (found : Found) (now : Nat)
  | check (i : Nat) (now : Nat)
  | evict (key : Str)

structure Attempt where
  session : Session
  window : Number
  passed : Bool
  deriving DecidableEq

variable (policies : UInt16 → Option Str)

def cfgOf (s : Session) : AccessCfg := accessCfg (policies s.serverPort)

def step (w : World) : Event → World × List Attempt
  | .arrive s found now =>
    let (banned,_,zone) := admission w.zone s (cfgOf policies s) found now
    ({zone := zone,pending := if banned then w.pending else w.pending ++ [s]},[])
  | .check i now =>
    match w.pending[i]? with
    | none => (w,[])
    | some s =>
      let (exceeded,zone) := connRateExceeded w.zone s (cfgOf policies s) now
      (⟨zone,w.pending.eraseIdx i⟩,[⟨s,window (cfgOf policies s) now,!exceeded⟩])
  | .evict key => ({w with zone := w.zone.erase key},[])

def start : World := ⟨∅,[]⟩

def attempts (events : List Event) : List Attempt := (run (step policies) start events).2

/-- An attempt whose steps are not interrupted does what `access` does. -/
theorem access_steps (w : World) (s : Session) (found : Found) (now later : Nat) :
    let done := access w.zone s (cfgOf policies s) found now later
    let stepped := run (step policies) w [.arrive s found now,.check w.pending.length later]
    stepped.1 = ⟨done.2,w.pending⟩ ∧ stepped.2.map Attempt.passed =
      if (admission w.zone s (cfgOf policies s) found now).1 then [] else [done.1.denied.isNone] := by
  intro done stepped
  rcases admitted : admission w.zone s (cfgOf policies s) found now with ⟨banned,warnings,zone⟩
  rcases counted : connRateExceeded zone s (cfgOf policies s) later with ⟨exceeded,after⟩
  cases banned with
  | true => simp [stepped,done,run_cons,step,access,admitted]
  | false =>
    have back : (w.pending ++ [s]).eraseIdx w.pending.length = w.pending := by
      rw [List.eraseIdx_append_of_length_le (le_refl _)]
      simp
    cases exceeded <;> simp [stepped,done,run_cons,step,access,admitted,counted,back]

/-! ## Keys -/

theorem window_whole {cfg : AccessCfg} (positive : 0 < cfg.connWindow) (now : Nat) : Whole (window cfg now) := by
  have seconds : (0 : ℚ) ≤ (now : ℚ) / 1000 := by positivity
  have clock : (now : Number).div 1000 = Number.nearest ((now : ℚ) / 1000) := div_fin now (by norm_num)
  rw [window,clock]
  cases width : cfg.connWindow with
  | nan =>
    rw [width] at positive
    cases positive
  | negInf =>
    rw [width] at positive
    cases positive
  | posInf =>
    rcases nearest_nonneg seconds with inf | ⟨q,_,rounds⟩
    · rw [inf]
      exact .nan
    · rw [rounds]
      exact (.fin (n := 0) (by simp [Number.nearest]) : Whole (.fin (0 : Nat)))
  | fin c =>
    rw [width] at positive
    have above : (0 : ℚ) < c := (Number.fin_lt_fin 0 c).mp positive
    rcases nearest_nonneg seconds with inf | ⟨q,nonneg,rounds⟩
    · have endless : Number.posInf.div (.fin c) = .posInf := if_pos above.le
      rw [inf,endless]
      exact .posInf
    · rw [rounds,div_fin q above.ne']
      exact floor_whole (div_nonneg nonneg above.le)

theorem portOf_colon (s : Session) : 0x3A ∉ portOf s := by
  intro colon
  have digit := natText_digits _ _ colon
  revert digit
  decide

/-- No two counters share a key, although addresses have colons too. -/
theorem counterKey_injective {s s' : Session} {w w' : Number} (whole : Whole w) (whole' : Whole w')
    (same : counterKey s w = counterKey s' w') : s = s' ∧ w = w' := by
  obtain ⟨ports,rest⟩ := Lines.split_unique (portOf_colon s) (portOf_colon s') same
  have backwards := congrArg List.reverse rest
  simp only [List.reverse_append,List.reverse_cons,List.append_assoc,List.singleton_append] at backwards
  have colon : 0x3A ∉ (str w.text).reverse := fun member => text_colon whole (List.mem_reverse.mp member)
  have colon' : 0x3A ∉ (str w'.text).reverse := fun member => text_colon whole' (List.mem_reverse.mp member)
  obtain ⟨texts,addresses⟩ := Lines.split_unique colon colon' backwards
  have windows := text_injective whole whole' (List.reverse_inj.mp texts)
  have numbers := congrArg digitsValue ports
  rw [portOf,portOf,digitsValue_natText,digitsValue_natText,UInt16.toNat_inj] at numbers
  refine ⟨?_,windows⟩
  cases s
  cases s'
  exact congrArg₂ Session.mk numbers (List.reverse_inj.mp addresses)

theorem counterKey_digit (s : Session) (w : Number) : ∃ u rest, counterKey s w = u::rest ∧ isDigit u = true := by
  cases text : portOf s with
  | nil => exact absurd text (natText_ne_nil _)
  | cons u rest =>
    refine ⟨u,rest ++ 0x3A::(s.remoteAddress ++ 0x3A::str w.text),?_,natText_digits s.serverPort.toNat u ?_⟩
    · rw [counterKey,text]
      rfl
    · rw [portOf] at text
      simp [text]

theorem counterKey_ne {s : Session} {w : Number} {rest : Str} : counterKey s w ≠ 0x5F::rest := by
  intro same
  obtain ⟨u,tail,key,digit⟩ := counterKey_digit s w
  rw [key] at same
  obtain ⟨rfl,_⟩ := List.cons.inj same
  revert digit
  decide

/-! ## One step -/

variable {policies}

def Attempt.key (x : Attempt) : Str := counterKey x.session x.window

theorem warnPeriodically_lookup {zone : Zone} {key msg other : Str} (apart : other ≠ key) :
    (warnPeriodically zone key msg).2.lookup other = zone.lookup other := by
  simp only [warnPeriodically,Zone.add]
  split_ifs
  · rfl
  · exact AList.lookup_insert_ne apart

theorem admission_lookup (zone : Zone) (s : Session) (cfg : AccessCfg) (found : Found) (now : Nat) (t : Session) (w : Number) :
    (admission zone s cfg found now).2.2.lookup (counterKey t w) = zone.lookup (counterKey t w) := by
  simp only [admission]
  split_ifs
  · exact warnPeriodically_lookup counterKey_ne
  · exact warnPeriodically_lookup counterKey_ne
  · rfl

/-- A rate check that counts: the counter of its own key, one more. -/
theorem connRateExceeded_counts (zone : Zone) (s : Session) {cfg : AccessCfg} (now : Nat) (limited : 0 < cfg.connRate) :
    let key := counterKey s (window cfg now)
    let n := (zone.lookup key).getD 0 + 1
    connRateExceeded zone s cfg now = (decide (cfg.connRate < n),zone.insert key n) := by
  have counts : ¬ (cfg.connRate = 0 ∨ cfg.connRate = .nan) := by
    rintro (zero | none)
    · rw [zero] at limited
      revert limited
      decide
    · rw [none] at limited
      cases limited
  simp only [connRateExceeded,if_neg counts,Zone.incr]
  rfl

/-- Every listener that is connected to limits the rate, over a window. -/
def Limited (policies : UInt16 → Option Str) (s : Session) : Prop :=
  0 < (cfgOf policies s).connRate ∧ 0 < (cfgOf policies s).connWindow

theorem step_pending {w : World} {e : Event} (pending : ∀ s ∈ w.pending, Limited policies s)
    (arrives : ∀ s found now, e = .arrive s found now → Limited policies s) :
    ∀ s ∈ (step policies w e).1.pending, Limited policies s := by
  intro s member
  cases e with
  | arrive t found now =>
    simp only [step] at member
    split_ifs at member
    · exact pending s member
    · rcases List.mem_append.mp member with before | own
      · exact pending s before
      · exact List.mem_singleton.mp own ▸ arrives t found now rfl
  | check i now =>
    simp only [step] at member
    split at member
    · exact pending s member
    · exact pending s (List.mem_of_mem_eraseIdx member)
  | evict key => exact pending s member

/-- What a step does to the counters: nothing, or it loses one, or it counts an attempt. -/
theorem step_cases (w : World) (e : Event) (pending : ∀ s ∈ w.pending, Limited policies s) :
    ((∀ s win, (step policies w e).1.zone.lookup (counterKey s win) = w.zone.lookup (counterKey s win)) ∧
        (step policies w e).2 = []) ∨
      (∃ key, e = .evict key ∧ (step policies w e).1.zone = w.zone.erase key ∧ (step policies w e).2 = []) ∨
      ∃ x : Attempt, (step policies w e).2 = [x] ∧ Limited policies x.session ∧ Whole x.window ∧
        (step policies w e).1.zone = w.zone.insert x.key ((w.zone.lookup x.key).getD 0 + 1) ∧
        x.passed = !decide ((cfgOf policies x.session).connRate < ((w.zone.lookup x.key).getD 0 + 1 : Nat)) := by
  cases e with
  | arrive s found now => exact Or.inl ⟨fun t win => admission_lookup _ _ _ _ _ t win,rfl⟩
  | check i now =>
    cases found : w.pending[i]? with
    | none =>
      refine Or.inl ⟨?_,?_⟩
      · intro s win
        simp [step,found]
      · simp [step,found]
    | some s =>
      have limited := pending s (List.mem_of_getElem? found)
      have counts := connRateExceeded_counts w.zone s now limited.1
      have stepped : step policies w (.check i now) =
          (⟨(connRateExceeded w.zone s (cfgOf policies s) now).2,w.pending.eraseIdx i⟩,
            [⟨s,window (cfgOf policies s) now,!(connRateExceeded w.zone s (cfgOf policies s) now).1⟩]) := by
        simp only [step,found]
      rw [stepped,counts]
      exact Or.inr (Or.inr ⟨_,rfl,limited,window_whole limited.2 now,rfl,rfl⟩)
  | evict key => exact Or.inr (Or.inl ⟨key,rfl,rfl,rfl⟩)

/-! ## Whole runs -/

/-- The entry of a counter was lost after an attempt had counted on it. -/
def Spoiled (policies : UInt16 → Option Str) (events : List Event) (key : Str) : Prop :=
  ∃ before after, events = before ++ .evict key::after ∧ ∃ x ∈ attempts policies before, x.key = key

/-- No counter is lost within its window: between two attempts that count on it. -/
def Kept (policies : UInt16 → Option Str) (events : List Event) : Prop :=
  ∀ before key after, events = before ++ .evict key::after → (∃ x ∈ attempts policies before, x.key = key) →
    ∀ y ∈ (attempts policies events).drop (attempts policies before).length, y.key ≠ key

def world (policies : UInt16 → Option Str) (events : List Event) : World := (run (step policies) start events).1

theorem attempts_concat (events : List Event) (e : Event) : attempts policies (events ++ [e]) =
    attempts policies events ++ (step policies (world policies events) e).2 := by
  rw [attempts,run_concat]
  rfl

theorem attempts_starts (policies : UInt16 → Option Str) (before after : List Event) :
    ∃ more, attempts policies (before ++ after) = attempts policies before ++ more := by
  rw [attempts,run_append]
  exact ⟨_,rfl⟩

theorem Spoiled.concat {events : List Event} {key : Str} (spoiled : Spoiled policies events key) (e : Event) :
    Spoiled policies (events ++ [e]) key := by
  obtain ⟨before,after,rfl,counted⟩ := spoiled
  exact ⟨before,after ++ [e],by simp,counted⟩

theorem Kept.earlier {events : List Event} {e : Event} (kept : Kept policies (events ++ [e])) : Kept policies events := by
  rintro before key after rfl counted y member
  refine kept before key (after ++ [e]) (by simp) counted y ?_
  rw [attempts_concat]
  have within : (attempts policies before).length ≤ (attempts policies (before ++ .evict key::after)).length := by
    obtain ⟨more,starts⟩ := attempts_starts policies before (.evict key::after)
    rw [starts,List.length_append]
    exact Nat.le_add_right _ _
  rw [List.drop_append_of_le_length within]
  exact List.mem_append_left _ member

/-- The counter of an attempt that comes next has not been lost. -/
theorem Kept.unspoiled {events : List Event} {e : Event} {x : Attempt} (kept : Kept policies (events ++ [e]))
    (next : (step policies (world policies events) e).2 = [x]) : ¬ Spoiled policies events x.key := by
  rintro ⟨before,after,rfl,counted⟩
  refine kept before x.key (after ++ [e]) (by simp) counted x ?_ rfl
  rw [attempts_concat,next]
  obtain ⟨more,starts⟩ := attempts_starts policies before (.evict x.key::after)
  rw [starts,List.append_assoc,List.drop_left]
  exact List.mem_append_right _ (List.mem_singleton_self x)

def Attempt.Alike (x y : Attempt) : Prop := y.session = x.session ∧ y.window = x.window

instance (x y : Attempt) : Decidable (x.Alike y) := inferInstanceAs (Decidable (_ ∧ _))

def earlier (x : Attempt) (before : List Attempt) : Nat := before.countP fun y => x.Alike y

structure Counts (policies : UInt16 → Option Str) (events : List Event) : Prop where
  pending : ∀ s ∈ (world policies events).pending, Limited policies s
  whole : ∀ x ∈ attempts policies events, Whole x.window
  limited : ∀ x ∈ attempts policies events, Limited policies x.session
  counted : ∀ s win, ¬ Spoiled policies events (counterKey s win) →
    ((world policies events).zone.lookup (counterKey s win)).getD 0 =
      (attempts policies events).countP fun x => x.key = counterKey s win
  decided : Kept policies events → ∀ before x after, attempts policies events = before ++ x::after →
    x.passed = !decide ((cfgOf policies x.session).connRate < (earlier x before + 1 : Nat))

theorem earlier_eq {x : Attempt} {before : List Attempt} (whole : Whole x.window) (all : ∀ y ∈ before, Whole y.window) :
    before.countP (fun y => y.key = x.key) = earlier x before := by
  refine List.countP_congr fun y member => ?_
  simp only [decide_eq_true_eq]
  constructor
  · exact counterKey_injective (all y member) whole
  · rintro ⟨session,window⟩
    rw [Attempt.key,Attempt.key,session,window]

theorem Counts.step {events : List Event} {e : Event} (counts : Counts policies events)
    (arrives : ∀ s found now, e = .arrive s found now → Limited policies s) : Counts policies (events ++ [e]) := by
  have next : world policies (events ++ [e]) = (Access.step policies (world policies events) e).1 := by
    rw [world,run_concat]
    rfl
  have unspoiled {key : Str} (kept : ¬ Spoiled policies (events ++ [e]) key) : ¬ Spoiled policies events key :=
    fun spoiled => kept (spoiled.concat e)
  have pending := step_pending counts.pending arrives
  rw [← next] at pending
  rcases step_cases (world policies events) e counts.pending with
    ⟨same,none⟩ | ⟨key,rfl,lost,none⟩ | ⟨x,out,limited,whole,zone,passed⟩
  · have all : attempts policies (events ++ [e]) = attempts policies events := by
      rw [attempts_concat,none,List.append_nil]
    refine ⟨pending,all ▸ counts.whole,all ▸ counts.limited,?_,?_⟩
    · intro s win kept
      rw [next,same,all]
      exact counts.counted s win (unspoiled kept)
    · intro kept before x after split
      exact counts.decided kept.earlier before x after (all ▸ split)
  · have all : attempts policies (events ++ [.evict key]) = attempts policies events := by
      rw [attempts_concat,none,List.append_nil]
    refine ⟨pending,all ▸ counts.whole,all ▸ counts.limited,?_,?_⟩
    · intro s win kept
      rw [next,lost,all]
      by_cases own : counterKey s win = key
      · have uncounted : (attempts policies events).countP (fun x => x.key = counterKey s win) = 0 := by
          refine List.countP_eq_zero.mpr fun x member same => kept ⟨events,[],by rw [own],x,member,?_⟩
          simpa using same
        rw [uncounted,own,AList.lookup_erase]
        rfl
      · rw [AList.lookup_erase_ne own]
        exact counts.counted s win (unspoiled kept)
    · intro kept before x after split
      exact counts.decided kept.earlier before x after (all ▸ split)
  · have all : attempts policies (events ++ [e]) = attempts policies events ++ [x] := by
      rw [attempts_concat,out]
    refine ⟨pending,?_,?_,?_,?_⟩
    · intro y member
      rw [all] at member
      rcases List.mem_append.mp member with before | own
      · exact counts.whole y before
      · exact List.mem_singleton.mp own ▸ whole
    · intro y member
      rw [all] at member
      rcases List.mem_append.mp member with before | own
      · exact counts.limited y before
      · exact List.mem_singleton.mp own ▸ limited
    · intro s win kept
      have before := counts.counted s win (unspoiled kept)
      rw [next,zone,all,List.countP_append]
      by_cases own : counterKey s win = x.key
      · rw [own] at before ⊢
        rw [AList.lookup_insert,before]
        simp
      · rw [AList.lookup_insert_ne own,before]
        simp [Ne.symm own]
    · intro kept before y after split
      rw [all] at split
      rcases List.eq_nil_or_concat after with rfl | ⟨rest,last,rfl⟩
      · obtain ⟨rfl,single⟩ := List.append_inj' split rfl
        obtain ⟨rfl,_⟩ := List.cons.inj single
        have counted := counts.counted x.session x.window (kept.unspoiled out)
        have key : counterKey x.session x.window = x.key := rfl
        rw [key] at counted
        rw [passed,counted,earlier_eq whole counts.whole]
      · rw [List.concat_eq_append,← List.cons_append,← List.append_assoc] at split
        exact counts.decided kept.earlier before y rest (List.append_inj' split rfl).1

theorem counts_run {events : List Event} (arrives : ∀ s found now, .arrive s found now ∈ events → Limited policies s) :
    Counts policies events := by
  induction events using List.reverseRecOn with
  | nil =>
    refine ⟨by simp [world,start],by simp [attempts],by simp [attempts],fun _ _ _ => rfl,?_⟩
    intro _ before x after split
    simp [attempts] at split
  | append_singleton events e ih =>
    refine (ih fun s found now member => arrives s found now (by simp [member])).step ?_
    rintro s found now rfl
    exact arrives s found now (by simp)

theorem zero_le_of_pos {x : Number} (positive : 0 < x) : ((0 : Nat) : Number) ≤ x := by
  cases x with
  | nan => cases positive
  | negInf => cases positive
  | posInf => rfl
  | fin q => exact (Number.fin_le_fin 0 q).mpr ((Number.fin_lt_fin 0 q).mp positive).le

def passes (s : Session) (win : Number) (all : List Attempt) : Nat :=
  all.countP fun x => x.session = s ∧ x.window = win ∧ x.passed

theorem passes_le {rate : Number} (number : rate ≠ .nan) (nonneg : ((0 : Nat) : Number) ≤ rate) {s : Session} {win : Number}
    {all : List Attempt} (decided : ∀ before x after, all = before ++ x::after → x.session = s →
      x.passed = !decide (rate < (earlier x before + 1 : Nat))) : (passes s win all : Number) ≤ rate := by
  induction all using List.reverseRecOn with
  | nil => exact nonneg
  | append_singleton all x ih =>
    have others := ih fun before y after split => decided before y (after ++ [x]) (by simp [split])
    by_cases own : x.session = s ∧ x.window = win ∧ x.passed = true
    · obtain ⟨session,window,passed⟩ := own
      have more : passes s win (all ++ [x]) = passes s win all + 1 := by simp [passes,session,window,passed]
      have fewer : passes s win all ≤ earlier x all := by
        refine List.countP_mono_left fun y _ alike => ?_
        simp only [decide_eq_true_eq] at alike ⊢
        exact ⟨alike.1.trans session.symm,alike.2.1.trans window.symm⟩
      have under := decided all x [] rfl session
      rw [passed] at under
      have within : ¬ rate < ((earlier x all + 1 : Nat) : Number) := by simpa using under.symm
      rw [more]
      exact Number.natCast_le_trans (Nat.succ_le_succ fewer) ((Number.not_lt_iff_le _ _ number).mp within)
    · have same : passes s win (all ++ [x]) = passes s win all := by
        rw [passes,List.countP_append,List.countP_singleton,if_neg (by simpa using own)]
        rfl
      rw [same]
      exact others

/-- In each window a source passes the rate check of a port as often as its rate allows at
most, and whether it passes is the same in any two runs in which it had come there as often. -/
theorem attempts_isolated {policies policies' : UInt16 → Option Str} {events events' : List Event}
    (limited : ∀ s found now, .arrive s found now ∈ events → Limited policies s)
    (limited' : ∀ s found now, .arrive s found now ∈ events' → Limited policies' s)
    (kept : Kept policies events) (kept' : Kept policies' events') :
    (∀ s win, Limited policies s → (passes s win (attempts policies events) : Number) ≤ (cfgOf policies s).connRate) ∧
    ∀ before x after before' x' after', attempts policies events = before ++ x::after →
      attempts policies' events' = before' ++ x'::after' → x.Alike x' →
      policies x.session.serverPort = policies' x.session.serverPort → earlier x before = earlier x' before' →
        x.passed = x'.passed := by
  have counts := counts_run limited
  have counts' := counts_run limited'
  constructor
  · intro s win rate
    have number : (cfgOf policies s).connRate ≠ .nan := by
      intro none
      have positive := rate.1
      rw [none] at positive
      cases positive
    refine passes_le number (zero_le_of_pos rate.1) fun before x after split own => ?_
    rw [← own]
    exact counts.decided kept before x after split
  · intro before x after before' x' after' split split' alike policy same
    have policy' : cfgOf policies' x'.session = cfgOf policies x.session := by
      rw [cfgOf,cfgOf,alike.1,policy]
    rw [counts.decided kept before x after split,counts'.decided kept' before' x' after' split',policy',same]

theorem kept_of_none {events : List Event} (none : ∀ key, .evict key ∉ events) : Kept policies events := by
  rintro before key after rfl
  exact absurd (by simp) (none key)

/-- A tight listener beside a loose one that the same source has used before. -/
theorem attempts_isolated_ports :
    let policies (port : UInt16) : Option Str := some (if port = 22 then str "conn_rate=1" else str "conn_rate=9")
    let ssh : Session := ⟨22,str "2001:db8::1"⟩
    let web : Session := ⟨80,str "2001:db8::1"⟩
    let alone := attempts policies [.arrive ssh .missing 0,.check 0 0,.arrive ssh .missing 1,.check 0 1]
    let after := attempts policies [.arrive web .missing 0,.check 0 0,.arrive ssh .missing 0,.check 0 0]
    alone = [⟨ssh,0,true⟩,⟨ssh,0,false⟩] ∧ after = [⟨web,0,true⟩,⟨ssh,0,true⟩] ∧
      (passes ssh 0 alone : Number) ≤ (cfgOf policies ssh).connRate ∧
      ∀ x x' : Attempt, alone = [] ++ x::[⟨ssh,0,false⟩] → after = [⟨web,0,true⟩] ++ x'::[] → x.passed = x'.passed := by
  intro policies ssh web alone after
  have first : alone = [⟨ssh,0,true⟩,⟨ssh,0,false⟩] := by decide +kernel
  have second : after = [⟨web,0,true⟩,⟨ssh,0,true⟩] := by decide +kernel
  have tight : Limited policies ssh := by
    unfold Limited
    decide +kernel
  have loose : Limited policies web := by
    unfold Limited
    decide +kernel
  have limited : ∀ s found now, Event.arrive s found now ∈
      [.arrive ssh .missing 0,.check 0 0,.arrive ssh .missing 1,.check 0 1] → Limited policies s := by
    intro s found now member
    simp only [List.mem_cons,Event.arrive.injEq,reduceCtorEq,List.not_mem_nil,false_or,or_false] at member
    rcases member with ⟨rfl,_⟩ | ⟨rfl,_⟩ <;> exact tight
  have limited' : ∀ s found now, Event.arrive s found now ∈
      [.arrive web .missing 0,.check 0 0,.arrive ssh .missing 0,.check 0 0] → Limited policies s := by
    intro s found now member
    simp only [List.mem_cons,Event.arrive.injEq,reduceCtorEq,List.not_mem_nil,false_or,or_false] at member
    rcases member with ⟨rfl,_⟩ | ⟨rfl,_⟩
    · exact loose
    · exact tight
  obtain ⟨bound,isolated⟩ := attempts_isolated limited limited' (kept_of_none (by simp)) (kept_of_none (by simp))
  refine ⟨first,second,bound ssh 0 tight,?_⟩
  intro x x' split split'
  have own : x = ⟨ssh,0,true⟩ := (List.cons.inj (split.symm.trans first)).1
  have own' : x' = ⟨ssh,0,true⟩ := (List.cons.inj (List.cons.inj (split'.symm.trans second)).2).1
  refine isolated [] x _ _ x' [] split split' ?_ rfl ?_
  · rw [own,own']
    exact ⟨rfl,rfl⟩
  · rw [own,own']
    decide

end FipsShield.Access
