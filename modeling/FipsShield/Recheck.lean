import FipsShield.Limits
import FipsShield.Library.Monotone
import Mathlib.Data.Int.ConditionallyCompleteOrder

/-! The re-check of the banlist in the middle of a session: when it is due, and what a
session still forwards once its source is listed. -/
namespace FipsShield.Engine
open Text FipsShield.Core Transducer

/-! ## The clock is read ever more often -/

/-- Checks that take no reading of the clock back. -/
def Reads (lim : Limits) (done : Option Violation × Limits) : Prop := lim.ticks ≤ done.2.ticks

section Police
variable {env : Env} {cfg : Cfg} {lim : Limits}

theorem Reads.refl (found : Option Violation) : Reads lim (found,lim) := Nat.le_refl _

theorem paying_reads (meter : Meter) {next : Limits → Option Violation × Limits}
    (later : ∀ lim, Reads lim (next lim)) : Reads lim (paying env lim meter next) := by
  have once : lim.ticks ≤ (charge env lim meter).2.ticks := by
    cases meter <;> exact Nat.le_succ _
  simp only [paying]
  split_ifs
  · exact once.trans (later _)
  · exact once

theorem openSub_reads (sid : Str) : Reads lim (openSub cfg lim sid) := by
  unfold openSub
  split_ifs <;> exact Nat.le_refl _

theorem close_reads (args : List Json) : Reads lim (close lim args) := by
  unfold close closeSub
  split
  · split_ifs <;> exact Nat.le_refl _
  · exact .refl _

theorem query_reads (sid : Option Json) (filters : List (Option Json)) (opens : Bool) :
    Reads lim (query env cfg lim sid filters opens) := by
  apply paying_reads
  intro lim
  split
  · exact .refl _
  · split
    · exact .refl _
    · split_ifs
      · exact openSub_reads _
      · exact .refl _

theorem event_reads (args : List Json) : Reads lim (event env cfg lim args) := by
  apply paying_reads
  intro lim
  split
  · split
    · split_ifs <;> exact .refl _
    · exact .refl _
  · exact .refl _

theorem byType_reads (t : Str) (args : List Json) : Reads lim (byType env cfg lim t args) := by
  unfold byType
  split_ifs
  · exact event_reads args
  · exact query_reads _ _ _
  · exact query_reads _ _ _
  · exact paying_reads .event fun _ => .refl none
  · exact close_reads args
  · exact .refl _

theorem police_reads (buf : Bytes) : Reads lim (police env cfg lim buf) := by
  apply paying_reads
  intro lim
  split
  · exact .refl _
  · split
    · exact .refl _
    · split_ifs
      · exact byType_reads _ _
      · exact .refl _

end Police

theorem reads_polices (env : Env) (cfg : Cfg) (n : Nat) : Polices env cfg fun lim _ => n ≤ lim.ticks where
  tick _ _ _ later earlier := earlier.trans later
  police _ _ _ earlier := earlier.trans (police_reads _)

theorem read_ticks (env : Env) (cfg : Cfg) (st : St) (data : Bytes) :
    st.lim.ticks ≤ (read env cfg st data).1.lim.ticks := by
  have after : LimitsAfter (fun lim _ => st.lim.ticks ≤ lim.ticks) []
      ((read env cfg st data).1,(read env cfg st data).2.1) :=
    read_limits (reads_polices env cfg st.lim.ticks) st (Nat.le_refl _) data
  exact after

/-! ## The time of the next re-check -/

/-- The next re-check of a session that has one is dated by a reading of the clock, at
which the filter was made or the source was found not to be banned. -/
def Dated (env : Env) (cfg : Cfg) (st : St) : Prop := st.killed = false → st.mode ≠ .plain →
  ∃ m, m < st.lim.ticks ∧ st.banCheckAt = nextBanCheck cfg (env.now m) ∧
    (m = 3 ∨ env.isBanned (m + 1) = .ok false)

section Steps
variable (env : Env) (cfg : Cfg) {st : St}

theorem handshake_banCheckAt (data : Bytes) (alive : st.killed = false)
    (lives : (handshake env cfg st data).1.killed = false) :
    (handshake env cfg st data).1.banCheckAt = st.banCheckAt := by
  rcases handshake_cases env cfg data with
    ⟨_,seen,rule,detail,live,_,_,cuts⟩ | ⟨_,_,waits⟩ | ⟨_,stop,_,_,done⟩
  · rw [cuts,violate_alive env cfg (live.trans alive)] at lives
    cases lives
  · rw [waits]
    rfl
  · rw [done]
    simp only [classify]
    split_ifs
    · have opened : (upgraded (scanned st data) stop).killed = false := alive
      have kept := (pump_advances env cfg opened).1
      exact congrArg (fun outer => outer.2.2.2.2.1) kept
    · rfl
    · rfl

theorem read_banCheckAt (data : Bytes) (alive : st.killed = false)
    (lives : (read env cfg st data).1.killed = false) :
    (read env cfg st data).1.banCheckAt = st.banCheckAt := by
  unfold read at lives ⊢
  split_ifs at lives ⊢
  · rfl
  · exact handshake_banCheckAt env cfg data alive lives
  · exact congrArg (fun outer => outer.2.2.2.2.1) (receive_advances env cfg alive data).1

theorem banCheck_passes (readable : cfg.banFile ≠ []) (other : st.mode ≠ .plain)
    (passes : (banCheck env cfg st).1 = .ok false) : (banCheck env cfg st).2.lim.ticks = st.lim.ticks + 1 ∧
      ((banCheck env cfg st).2.banCheckAt = st.banCheckAt ∨
        (banCheck env cfg st).2.banCheckAt = nextBanCheck cfg (env.now st.lim.ticks) ∧
          env.isBanned (st.lim.ticks + 1) = .ok false) := by
  simp only [banCheck,if_pos (And.intro other readable)] at passes ⊢
  split_ifs at passes ⊢
  · exact ⟨rfl,Or.inr ⟨rfl,passes⟩⟩
  · exact ⟨rfl,Or.inl rfl⟩

theorem respond_dated (readable : cfg.banFile ≠ []) (dated : Dated env cfg st) (c : Callback) :
    Dated env cfg (respond env cfg st c).1 := by
  intro lives other
  cases c with
  | downstream data flags =>
    simp only [respond,downstream] at lives other ⊢
    split_ifs at lives other ⊢ with unknown
    · exact absurd unknown.1 (by
        intro plain
        apply other
        unfold violate
        split_ifs <;> exact plain)
    · exact absurd unknown.1 other
    · exact dated lives other
  | upstream data flags =>
    simp only [respond] at lives other ⊢
    cases alive : st.killed with
    | true =>
      rw [upstream_killed env cfg alive] at lives
      simp [alive] at lives
    | false =>
      by_cases plain : st.mode = .plain
      · have sends : upstream env cfg st data flags = (st,[.send data flags.options]) := by
          simp [upstream,onData,alive,banCheck_plain env cfg plain,plain]
        rw [sends] at other
        exact absurd plain other
      · obtain ⟨time,ticks,same⟩ := banCheck_state env cfg st
        have live : (banCheck env cfg st).2.killed = false := by
          rw [same]
          exact alive
        rw [upstream_answered env cfg alive plain] at lives ⊢
        cases answer : (banCheck env cfg st).1 with
        | error e => simp [answer,violate_alive env cfg live,cut] at lives
        | ok banned =>
          cases banned with
          | true => simp [answer,violate_alive env cfg live,cut] at lives
          | false =>
            simp only [answer,finish] at lives ⊢
            obtain ⟨once,due⟩ := banCheck_passes env cfg readable plain answer
            have kept := read_banCheckAt env cfg data live lives
            have grows := read_ticks env cfg (banCheck env cfg st).2 data
            rw [once] at grows
            rcases due with early | ⟨checked,free⟩
            · obtain ⟨m,earlier,time,found⟩ := dated alive plain
              exact ⟨m,by omega,by rw [kept,early,time],found⟩
            · exact ⟨st.lim.ticks,grows,by rw [kept,checked],Or.inr free⟩

end Steps

/-! ## What is forwarded once a source is listed -/

structure Timed where
  start : Int
  stop : Int
  callback : Callback

def handled (env : Env) (cfg : Cfg) (st : St) (x : Timed) : St × Trace := callback env cfg st x.callback

/-- The clock has been read before the callback starts, and within it until it ends. -/
def Clocked (env : Env) (cfg : Cfg) (st : St) (x : Timed) : Prop :=
  x.start ≤ x.stop ∧ (∀ n < st.lim.ticks, env.now n ≤ x.start) ∧
    ∀ n < (handled env cfg st x).1.lim.ticks, st.lim.ticks ≤ n → x.start ≤ env.now n ∧ env.now n ≤ x.stop

/-- `isBanned` answers that the source is banned, whenever it is asked between the times. -/
def Listed (env : Env) (since till : Int) : Prop :=
  ∀ n, since ≤ env.now n → env.now n < till → env.isBanned (n + 1) = .ok true

/-- The callback starts later than `ban_recheck` seconds after the ban, and ends while it lasts. -/
def Late (cfg : Cfg) (since till : Int) (x : Timed) : Prop :=
  nextBanCheck cfg since < (x.start : Number) ∧ since ≤ x.start ∧ x.stop < till

def Silent (env : Env) (cfg : Cfg) (st : St) (x : Timed) : Prop :=
  forwardedUp (handled env cfg st x).2 = [] ∧ forwardedDown (handled env cfg st x).2 = []

/-- The callback brings nothing, or the session has been cut and it comes from the client,
or it comes to a re-check that is due, or it cuts a plain session. -/
def Heeded (env : Env) (st : St) : Callback → Prop
  | .upstream data _ => data = [] ∨ st.killed = true ∨
      st.mode ≠ .plain ∧ st.banCheckAt ≤ (env.now st.lim.ticks : Number)
  | .downstream data _ => data = [] ∨ st.killed = false ∧ st.mode = .plain ∧
      st.checkedResponse = false ∧ switchingTest (Text.toString (Buffer.slice data 0 16)) = true

section Late
variable {env : Env} {cfg : Cfg} {since till : Int} {st : St}

theorem upstream_empty (env : Env) (cfg : Cfg) (st : St) (flags : Flags) :
    forwardedBy (upstream env cfg st [] flags).2 = [] := by
  cases alive : st.killed with
  | true =>
    rw [upstream_killed env cfg alive]
    rfl
  | false =>
    rcases upstream_cases env cfg alive [] flags with
      ⟨_,_,time,ticks,rule,detail,cuts⟩ | ⟨_,sends⟩ | ⟨_,_,time,ticks,reads⟩
    · rw [cuts,violate_alive env cfg (clocked_alive alive time ticks)]
      exact (forwardedBy_closing _ _).1
    · rw [sends]
      rfl
    · rw [reads]
      simp only [finish,read,if_true,List.nil_append,propagate]
      split_ifs <;> rfl

theorem silent_upstream {x : Timed} {data : Bytes} {flags : Flags} (arrives : x.callback = .upstream data flags) :
    Silent env cfg st x ↔ forwardedBy (upstream env cfg st data flags).2 = [] := by
  have nothing (calls : List Call) : forwardedDown (calls.map (Prod.mk .upstream)) = [] := by
    rw [forwardedDown,List.flatMap_map,List.flatMap_eq_nil_iff]
    intro call _
    cases call <;> rfl
  simp only [Silent,handled,callback,arrives,respond,Callback.direction,forwardedUp_calls,nothing,and_true]

theorem silent_downstream {x : Timed} {data : Bytes} {flags : Flags}
    (arrives : x.callback = .downstream data flags) : Silent env cfg st x ↔
      forwardedDown ((downstream env cfg st data flags).2.map (Prod.mk .downstream)) = [] := by
  simp only [Silent,handled,callback,arrives,respond,Callback.direction,forwardedUp_downstream,true_and]

theorem upstream_ticks (readable : cfg.banFile ≠ []) (alive : st.killed = false) (other : st.mode ≠ .plain)
    (data : Bytes) (flags : Flags) : st.lim.ticks < (upstream env cfg st data flags).1.lim.ticks := by
  have once : (banCheck env cfg st).2.lim.ticks = st.lim.ticks + 1 := by
    simp only [banCheck,if_pos (And.intro other readable)]
    split_ifs <;> rfl
  have cuts (rule : Rule) (detail : Str) : (banCheck env cfg st).2.lim.ticks ≤
      (violate env cfg (banCheck env cfg st).2 rule detail).1.lim.ticks := by
    unfold violate
    split_ifs
    · exact Nat.le_refl _
    · exact Nat.le_succ _
  have reads := read_ticks env cfg (banCheck env cfg st).2 data
  rw [upstream_answered env cfg alive other]
  split
  · exact Nat.lt_of_succ_le (once.ge.trans (cuts _ _))
  · exact Nat.lt_of_succ_le (once.ge.trans (cuts _ _))
  · exact Nat.lt_of_succ_le (once.ge.trans reads)

/-- A re-check that is due while the source is listed ends the session. -/
theorem due_silent (readable : cfg.banFile ≠ []) (listed : Listed env since till) {x : Timed} {data : Bytes}
    {flags : Flags} (arrives : x.callback = .upstream data flags) (clocked : Clocked env cfg st x)
    (late : Late cfg since till x) (alive : st.killed = false) (other : st.mode ≠ .plain)
    (due : st.banCheckAt ≤ (env.now st.lim.ticks : Number)) : Silent env cfg st x := by
  have grows : st.lim.ticks < (handled env cfg st x).1.lim.ticks := by
    simp only [handled,callback,arrives,respond]
    exact upstream_ticks readable alive other data flags
  obtain ⟨after,before⟩ := clocked.2.2 _ grows (Nat.le_refl _)
  have banned := listed st.lim.ticks (late.2.1.trans after) (before.trans_lt late.2.2)
  have answer : (banCheck env cfg st).1 = .ok true := by
    simp only [banCheck,if_pos (And.intro other readable),if_pos due]
    exact banned
  obtain ⟨time,ticks,same⟩ := banCheck_state env cfg st
  have live : (st.clocked time ticks).killed = false := alive
  rw [silent_upstream arrives,upstream_answered env cfg alive other,answer,same]
  simp only [violate_alive env cfg live]
  exact (forwardedBy_closing _ _).1

theorem heeded_silent (readable : cfg.banFile ≠ []) (listed : Listed env since till) {x : Timed}
    (clocked : Clocked env cfg st x) (late : Late cfg since till x) (heeded : Heeded env st x.callback) :
    Silent env cfg st x := by
  cases arrives : x.callback with
  | upstream data flags =>
    rw [arrives] at heeded
    cases alive : st.killed with
    | true =>
      rw [silent_upstream arrives,upstream_killed env cfg alive]
      rfl
    | false =>
      rcases heeded with rfl | killed | ⟨other,due⟩
      · rw [silent_upstream arrives]
        exact upstream_empty env cfg st flags
      · simp [alive] at killed
      · exact due_silent readable listed arrives clocked late alive other due
  | downstream data flags =>
    rw [arrives] at heeded
    rw [silent_downstream arrives]
    rcases heeded with rfl | ⟨alive,plain,unknown,switches⟩
    · simp [downstream,forwardedDown,forwardedDownBytes]
    · by_cases empty : data = []
      · simp [empty,downstream,forwardedDown,forwardedDownBytes]
      · have live : (latched st).killed = false := alive
        simp only [downstream,if_pos (And.intro plain (And.intro unknown empty)),if_pos switches,
          violate_alive env cfg live,closing_eq]
        rfl

theorem dated_due (began : env.now 3 ≤ since) (listed : Listed env since till) {x : Timed}
    (clocked : Clocked env cfg st x) (late : Late cfg since till x) (alive : st.killed = false)
    (other : st.mode ≠ .plain) (dated : Dated env cfg st)
    (grows : st.lim.ticks < (handled env cfg st x).1.lim.ticks) :
    st.banCheckAt ≤ (env.now st.lim.ticks : Number) := by
  obtain ⟨m,earlier,time,found⟩ := dated alive other
  have past : env.now m < till := ((clocked.2.1 m earlier).trans clocked.1).trans_lt late.2.2
  have free : env.now m ≤ since := by
    rcases found with rfl | free
    · exact began
    · by_contra after
      have banned := listed m (le_of_not_ge after) past
      rw [free] at banned
      cases banned
  have within := (clocked.2.2 _ grows (Nat.le_refl _)).1
  rw [time]
  exact Number.fin_add_le (Int.cast_le.mpr free) late.1 (Int.cast_le.mpr within)

theorem silent_heeded (readable : cfg.banFile ≠ []) (began : env.now 3 ≤ since) (listed : Listed env since till)
    (settled : Settled st) (dated : Dated env cfg st) {x : Timed} (clocked : Clocked env cfg st x)
    (late : Late cfg since till x) (silent : Silent env cfg st x) : Heeded env st x.callback := by
  cases arrives : x.callback with
  | upstream data flags =>
    cases alive : st.killed with
    | true => exact Or.inr (Or.inl alive)
    | false =>
      by_cases plain : st.mode = .plain
      · have sends : upstream env cfg st data flags = (st,[.send data flags.options]) := by
          simp [upstream,onData,alive,banCheck_plain env cfg plain,plain]
        rw [silent_upstream arrives,sends] at silent
        exact Or.inl (by simpa [forwardedBy] using silent)
      · have grows : st.lim.ticks < (handled env cfg st x).1.lim.ticks := by
          simp only [handled,callback,arrives,respond]
          exact upstream_ticks readable alive plain data flags
        exact Or.inr (Or.inr ⟨plain,dated_due began listed clocked late alive plain dated grows⟩)
  | downstream data flags =>
    rw [silent_downstream arrives] at silent
    simp only [downstream] at silent
    split_ifs at silent with unknown switches
    · refine Or.inr ⟨?_,unknown.1,unknown.2.1,switches⟩
      by_contra killed
      have known := settled (Bool.eq_true_of_not_eq_false killed) unknown.1
      simp [unknown.2.1] at known
    · exact Or.inl (by simpa [forwardedDown,forwardedDownBytes] using silent)
    · exact Or.inl (by simpa [forwardedDown,forwardedDownBytes] using silent)

end Late

def Along (env : Env) (P : St → Timed → Prop) (run : List Timed) : Prop :=
  Throughout (handled env (readCfg env)) P (filter env (readCfg env)) run

/-- A session forwards nothing late if every late callback is heeded, and, where the ban was
listed once the session had begun, only then. -/
theorem recheck_silences (env : Env) (readable : (readCfg env).banFile ≠ []) (since till : Int)
    (listed : Listed env since till) (run : List Timed) (clocked : Along env (Clocked env (readCfg env)) run) :
    (Along env (fun st x => Late (readCfg env) since till x → Heeded env st x.callback) run →
        Along env (fun st x => Late (readCfg env) since till x → Silent env (readCfg env) st x) run) ∧
      (env.now 3 ≤ since →
        Along env (fun st x => Late (readCfg env) since till x → Silent env (readCfg env) st x) run →
        Along env (fun st x => Late (readCfg env) since till x → Heeded env st x.callback) run) := by
  constructor
  · intro heeded
    refine Throughout.implies (K := fun _ => True) (fun _ _ _ => trivial) ?_ trivial clocked heeded
    intro st x _ clocked heeded late
    exact heeded_silent readable listed clocked late (heeded late)
  · intro began silent
    refine Throughout.implies (K := fun st => Settled st ∧ Dated env (readCfg env) st) ?_ ?_ ?_ clocked silent
    · intro st x kept
      exact ⟨respond_settled env (readCfg env) kept.1 x.callback,respond_dated env (readCfg env) readable kept.2 x.callback⟩
    · intro st x kept clocked silent late
      exact silent_heeded readable began listed kept.1 kept.2 clocked late (silent late)
    · exact ⟨fun killed => by simp [filter] at killed,fun _ _ => ⟨3,Nat.lt_succ_self 3,rfl,Or.inl rfl⟩⟩

/-- A listener that re-checks its banlist every second, on a clock that reads zero at
first and five seconds later on, with the source listed when it reads that. -/
def recheckingListener : Env where
  policy := some (str "ban_file=banlist;ban_recheck=1")
  remoteAddress := str "192.0.2.1"
  now := fun n => if n < 5 then 0 else 5000
  isBanned := fun n => .ok (6 ≤ n)

theorem recheckingListener_listed : Listed recheckingListener 1000 9000 := by
  intro n after _
  have later : 5 ≤ n := by
    by_contra early
    simp only [recheckingListener,if_pos (by omega : n < 5)] at after
    omega
  simp only [recheckingListener]
  exact congrArg Except.ok (decide_eq_true (by omega))

instance (env : Env) (cfg : Cfg) (st : St) (x : Timed) : Decidable (Clocked env cfg st x) :=
  inferInstanceAs (Decidable (_ ∧ _ ∧ _))

instance (cfg : Cfg) (since till : Int) (x : Timed) : Decidable (Late cfg since till x) :=
  inferInstanceAs (Decidable (_ ∧ _ ∧ _))

instance (env : Env) (cfg : Cfg) (st : St) (x : Timed) : Decidable (Silent env cfg st x) :=
  inferInstanceAs (Decidable (_ ∧ _))

instance (env : Env) (st : St) : (c : Callback) → Decidable (Heeded env st c)
  | .upstream _ _ => inferInstanceAs (Decidable (_ ∨ _ ∨ _))
  | .downstream _ _ => inferInstanceAs (Decidable (_ ∨ _))

instance (env : Env) (P : St → Timed → Prop) [∀ st x, Decidable (P st x)] (run : List Timed) :
    Decidable (Along env P run) := decidableThroughout _ _ _

def sendingRun : List Timed := [⟨0,0,sends upgradeRequest⟩,⟨5000,5000,sends (message "[]")⟩]

def answeredRun : List Timed := [⟨0,0,sends upgradeRequest⟩,⟨5000,5000,answers (message "[]")⟩]

theorem recheck_sending :
    Along recheckingListener (fun st x => Late (readCfg recheckingListener) 1000 9000 x →
        Silent recheckingListener (readCfg recheckingListener) st x) sendingRun ∧
      Along recheckingListener (fun st x => Late (readCfg recheckingListener) 1000 9000 x →
        Heeded recheckingListener st x.callback) sendingRun := by
  obtain ⟨silences,needed⟩ := recheck_silences recheckingListener (by decide +kernel) 1000 9000 recheckingListener_listed
    sendingRun (by decide +kernel)
  have silent := silences (by decide +kernel)
  exact ⟨silent,needed (by decide +kernel) silent⟩

/-- Answers of the upstream reach a client that has been listed for four seconds. -/
theorem answered_late : ¬ ∀ (env : Env), (readCfg env).banFile ≠ [] → Monotone env.now → ∀ since till,
    env.now 3 ≤ since → Listed env since till → ∀ run, Along env (Clocked env (readCfg env)) run →
      Along env (fun st x => Late (readCfg env) since till x → Silent env (readCfg env) st x) run := by
  intro claim
  have monotone : Monotone recheckingListener.now := by
    intro n m earlier
    simp only [recheckingListener]
    split_ifs <;> omega
  have silent := claim recheckingListener (by decide +kernel) monotone 1000 9000 (by decide +kernel)
    recheckingListener_listed answeredRun (by decide +kernel)
  revert silent
  decide +kernel

end FipsShield.Engine
