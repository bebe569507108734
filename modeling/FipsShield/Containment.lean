import FipsShield.Outcome

/-! What a cut session still lets through: the calls made after the first
verdict, and the direction of the frames a violation injects. -/
namespace FipsShield.Engine
open Text FipsShield.Core

section Runs
variable (env : Env) (before later : List Callback) (c : Callback)

theorem session_append : session env (before ++ later) =
    ((Transducer.run (callback env (readCfg env)) (session env before).1 later).1,
      (session env before).2 ++
        (Transducer.run (callback env (readCfg env)) (session env before).1 later).2) :=
  Transducer.run_append _ _ _ _

theorem session_concat : session env (before ++ [c]) =
    ((callback env (readCfg env) (session env before).1 c).1,
      (session env before).2 ++ (callback env (readCfg env) (session env before).1 c).2) :=
  Transducer.run_concat _ _ _ _

theorem session_rule {env : Env} {P : List Callback → St → Trace → Prop}
    (initial : P [] (filter env (readCfg env)) [])
    (preserved : ∀ before st trace c, P before st trace → P (before ++ [c])
      (respond env (readCfg env) st c).1
      (trace ++ (respond env (readCfg env) st c).2.map (Prod.mk c.direction)))
    (callbacks : List Callback) : P callbacks (session env callbacks).1 (session env callbacks).2 :=
  Transducer.invariant initial preserved callbacks

end Runs

theorem clientStream_concat (before : List Callback) (c : Callback) :
    clientStream (before ++ [c]) = clientStream before ++ c.sent := by simp [clientStream]

section Callbacks
variable (env : Env) (cfg : Cfg) {st : St}

theorem respond_outcome (alive : st.killed = false) (c : Callback) :
    Outcome (respond env cfg st c) := by
  cases c with
  | upstream data flags => exact upstream_outcome env cfg alive data flags
  | downstream data flags => exact downstream_outcome env cfg alive data flags

theorem read_plain (alive : st.killed = false) (other : st.mode ≠ .plain) (data : Bytes)
    (plain : (read env cfg st data).1.mode = .plain) : (read env cfg st data).1.killed = false := by
  unfold read at plain ⊢
  split_ifs at plain ⊢ with empty sniffing
  · exact alive
  · rcases handshake_cases env cfg data with
      ⟨_,seen,rule,detail,live,mode,_,cuts⟩ | ⟨_,_,waits⟩ | ⟨_,stop,_,_,done⟩
    · rw [cuts] at plain
      have kept := (violate_advances env cfg (live.trans alive) rule detail).mode
      exact absurd (mode.symm.trans (kept.symm.trans plain)) other
    · rw [waits]
      exact alive
    · rw [done] at plain ⊢
      simp only [classify] at plain ⊢
      split_ifs at plain ⊢
      · have kept := (pump_advances env cfg
          (show (upgraded (scanned st data) stop).killed = false from alive)).mode
        exact absurd (kept.symm.trans plain) (by simp [upgraded])
      · exact alive
      · exact alive
  · exact absurd ((receive_advances env cfg alive data).mode.symm.trans plain) other

theorem respond_other (other : st.mode ≠ .plain) (data : Bytes) (flags : Flags) :
    respond env cfg st (.downstream data flags) = (st,[.send data flags.options]) := by
  simp [respond,downstream,other]

/-- Only the answer of the upstream cuts a plain session, and it is looked at once. -/
def Settled (st : St) : Prop := st.killed = true → st.mode = .plain → st.checkedResponse = true

theorem respond_stays (killed : st.killed = true) (c : Callback) :
    (respond env cfg st c).1.killed = true := by
  cases c with
  | upstream data flags =>
    rw [respond,upstream_killed env cfg killed]
    exact killed
  | downstream data flags =>
    have dead : (latched st).killed = true := killed
    simp only [respond,downstream,violate,if_pos dead]
    split_ifs <;> exact killed

theorem respond_killed (killed : st.killed = true) (settled : Settled st) (c : Callback) :
    respond env cfg st c = (st,match c with
      | .upstream _ _ => []
      | .downstream data flags => [.send data flags.options]) := by
  cases c with
  | upstream data flags => exact upstream_killed env cfg killed data flags
  | downstream data flags =>
    have known : ¬ (st.mode = .plain ∧ st.checkedResponse = false ∧ data ≠ []) := by
      rintro ⟨plain,unknown,_⟩
      simp [settled killed plain] at unknown
    simp only [respond,downstream,if_neg known]

theorem respond_settled (settled : Settled st) (c : Callback) : Settled (respond env cfg st c).1 := by
  cases alive : st.killed with
  | true =>
    rw [respond_killed env cfg alive settled]
    exact settled
  | false =>
    intro killed plain
    cases c with
    | upstream data flags =>
      simp only [respond] at killed plain
      rcases upstream_cases env cfg alive data flags with
        ⟨_,other,time,ticks,rule,detail,cuts⟩ | ⟨_,sends⟩ | ⟨_,other,time,ticks,reads⟩
      · rw [cuts] at plain
        have kept := (violate_advances env cfg
          (clocked_alive alive time ticks) rule detail).mode
        exact absurd (kept.symm.trans plain) other
      · rw [sends] at killed
        simp [alive] at killed
      · rw [reads] at killed plain
        have live := read_plain env cfg (clocked_alive alive time ticks) other data plain
        simp [finish,live] at killed
    | downstream data flags =>
      simp only [respond,downstream] at killed plain ⊢
      split_ifs at killed plain ⊢
      · have kept := (violate_advances env cfg (latched_alive alive)
          .protocol (str "unclassified-upgrade")).checked
        exact kept
      · rfl
      · simp [alive] at killed

def passedOn (later : List Callback) : Trace :=
  later.filterMap fun c => match c with
    | .upstream _ _ => none
    | .downstream data flags => some (.downstream,.send data flags.options)

theorem run_killed (killed : st.killed = true) (settled : Settled st) (later : List Callback) :
    Transducer.run (callback env cfg) st later = (st,passedOn later) := by
  induction later with
  | nil => rfl
  | cons c rest ih =>
    have stays : (callback env cfg st c).1 = st := congrArg Prod.fst (respond_killed env cfg killed settled c)
    rw [Transducer.run_cons,stays,ih]
    simp only [callback,respond_killed env cfg killed settled]
    cases c <;> rfl

end Callbacks

theorem session_settled (env : Env) (callbacks : List Callback) : Settled (session env callbacks).1 :=
  session_rule (P := fun _ st _ => Settled st) (fun killed => by simp [filter] at killed)
    (fun _ _ _ c settled => respond_settled env (readCfg env) settled c) callbacks

theorem session_stays {env : Env} {before : List Callback} (killed : (session env before).1.killed = true)
    (later : List Callback) : (session env (before ++ later)).1.killed = true := by
  rw [session_append,run_killed env (readCfg env) killed (session_settled env before)]
  exact killed

theorem session_quiet (env : Env) (callbacks : List Callback)
    (alive : (session env callbacks).1.killed = false) :
    ∀ entry ∈ (session env callbacks).2, entry.2.quiet := by
  revert alive
  refine session_rule (P := fun _ st trace => st.killed = false → ∀ entry ∈ trace, entry.2.quiet)
    (by simp) ?_ callbacks
  intro before st trace c earlier alive entry member
  have live : st.killed = false := by
    by_contra dead
    have still := respond_stays env (readCfg env) (Bool.eq_true_of_not_eq_false dead) c
    simp [still] at alive
  rcases List.mem_append.mp member with old | new
  · exact earlier live entry old
  · obtain ⟨call,made,rfl⟩ := List.mem_map.mp new
    exact (respond_outcome env (readCfg env) live c).quiet alive call made

/-! ## After the first verdict -/

def isVerdict (entry : Direction × Call) : Bool :=
  match entry.2 with
  | .verdict _ => true
  | _ => false

def afterVerdict (trace : Trace) : Trace := (trace.dropWhile fun entry => !isVerdict entry).tail

theorem afterVerdict_quiet {before : Trace} (quiet : ∀ entry ∈ before, entry.2.quiet)
    (direction : Direction) (v : Verdict) (later : Trace) :
    afterVerdict (before ++ (direction,.verdict v)::later) = later := by
  induction before with
  | nil => rfl
  | cons entry rest ih =>
    have forwards : isVerdict entry = false := by
      have first := quiet entry (by simp)
      unfold isVerdict
      split <;> simp_all [Call.quiet]
    rw [afterVerdict,List.cons_append,List.dropWhile_cons_of_pos (by simp [forwards])]
    exact ih fun entry member => quiet entry (by simp [member])

/-- The callback that cuts a session is the last thing it does but pass data on. -/
theorem session_cut {env : Env} {before : List Callback} {c : Callback}
    (alive : (session env before).1.killed = false)
    (cut : (session env (before ++ [c])).1.killed = true) (later : List Callback) :
    ∃ quiet v, (∀ entry ∈ quiet, entry.2.quiet) ∧ (session env (before ++ c::later)).2 =
      quiet ++ (c.direction,.verdict v)::
        ((closing v.rule).map (Prod.mk c.direction) ++ passedOn later) := by
  have outcome := respond_outcome env (readCfg env) alive c
  have settled := session_settled env (before ++ [c])
  have whole : before ++ c::later = (before ++ [c]) ++ later := by simp
  rw [whole,session_append,run_killed env (readCfg env) cut settled]
  rw [session_concat] at cut ⊢
  simp only [callback] at cut ⊢
  rcases outcome with ⟨live,_⟩ | ⟨_,earlier,v,quiet,calls⟩
  · simp [live] at cut
  · refine ⟨(session env before).2 ++ earlier.map (Prod.mk c.direction),v,?_,by simp [calls]⟩
    intro entry member
    rcases List.mem_append.mp member with old | new
    · exact session_quiet env before alive entry old
    · obtain ⟨call,made,rfl⟩ := List.mem_map.mp new
      exact quiet call made

theorem passedOn_eq_nil (later : List Callback) :
    passedOn later = [] ↔ ∀ c ∈ later, c.direction = .upstream := by
  simp only [passedOn,List.filterMap_eq_nil_iff]
  refine forall₂_congr fun c _ => ?_
  cases c <;> simp [Callback.direction]

/-- After the first verdict a session makes exactly the calls of the violation if
and only if no data arrives from the upstream any more. -/
theorem contained_iff (env : Env) (before : List Callback) (c : Callback)
    (alive : (session env before).1.killed = false)
    (cut : (session env (before ++ [c])).1.killed = true) (later : List Callback) :
    (∃ rule, afterVerdict (session env (before ++ c::later)).2 =
        (closing rule).map (Prod.mk c.direction)) ↔
      ∀ c ∈ later, c.direction = .upstream := by
  obtain ⟨quiet,v,forwards,calls⟩ := session_cut alive cut later
  rw [calls,afterVerdict_quiet forwards,← passedOn_eq_nil]
  constructor
  · rintro ⟨rule,same⟩
    have lengths := congrArg List.length same
    simp only [closing_eq,List.length_append,List.length_map,List.length_cons,List.length_nil] at lengths
    exact List.length_eq_zero_iff.mp (by omega)
  · intro nothing
    exact ⟨v.rule,by rw [nothing,List.append_nil]⟩

/-- What the client sends after its violation goes nowhere. -/
theorem contained_alone :
    ∃ rule, afterVerdict (session (listener "")
        [sends upgradeRequest,sends (message "EVENT"),sends (message "[\"CLOSE\",\"a\"]"),sends (message "EVENT")]).2 =
      (closing rule).map (Prod.mk .upstream) :=
  (contained_iff (listener "") [sends upgradeRequest] (sends (message "EVENT")) (by decide +kernel) (by decide +kernel)
    [sends (message "[\"CLOSE\",\"a\"]"),sends (message "EVENT")]).mpr (by decide +kernel)

/-- An answer that follows the violation still reaches the client. -/
theorem answer_after_verdict :
    ¬ ∃ direction rule, afterVerdict (session (listener "")
        [sends upgradeRequest,sends (message "EVENT"),answers (message "EOSE")]).2 =
      (closing rule).map (Prod.mk direction) := by
  rintro ⟨direction,rule,same⟩
  have four : (afterVerdict (session (listener "")
    [sends upgradeRequest,sends (message "EVENT"),answers (message "EOSE")]).2).length = 4 := by
    decide +kernel
  simp [same,closing_eq] at four

/-! ## The direction of injected frames -/

def injectedUp (trace : Trace) : List Bytes :=
  trace.filterMap fun entry => match entry with
    | (.upstream,.inject data _) => some data
    | _ => none

def injectedDown (trace : Trace) : List Bytes :=
  trace.filterMap fun entry => match entry with
    | (.downstream,.inject data _) => some data
    | (_,.sendDownstream data) => some data
    | _ => none

/-- The upstream is sent one masked Close frame, and the client one unmasked
NOTICE and one unmasked Close frame. -/
def WellDirected (rule : Rule) (trace : Trace) : Prop :=
  (injectedUp trace).map Frame.parse =
      [some (injectedFrame opClose (closePayload 1008 rule.text) true,[])] ∧
    (injectedDown trace).map Frame.parse =
      [some (injectedFrame opText (fromString (notice rule)) false,[]),
        some (injectedFrame opClose (closePayload 1008 rule.text) false,[])]

theorem injected_quiet {trace : Trace} (quiet : ∀ entry ∈ trace, entry.2.quiet) :
    injectedUp trace = [] ∧ injectedDown trace = [] := by
  simp only [injectedUp,injectedDown,List.filterMap_eq_nil_iff]
  constructor
  all_goals
    rintro ⟨direction,call⟩ member
    have forwards := quiet _ member
    cases direction <;> cases call <;> simp_all [Call.quiet]

theorem passedOn_quiet (later : List Callback) : ∀ entry ∈ passedOn later, entry.2.quiet := by
  intro entry member
  obtain ⟨c,_,made⟩ := List.mem_filterMap.mp member
  cases c <;> simp at made
  simp [← made,Call.quiet]

theorem injected_cut {quiet passed : Trace} (forwards : ∀ entry ∈ quiet, entry.2.quiet)
    (passes : ∀ entry ∈ passed, entry.2.quiet) (direction : Direction) (v : Verdict) :
    let trace := quiet ++ (direction,.verdict v)::
      ((closing v.rule).map (Prod.mk direction) ++ passed)
    let text := framed opText (fromString (notice v.rule)) false
    let close := framed opClose (closePayload 1008 v.rule.text)
    injectedUp trace = (if direction = .upstream then [close true] else []) ∧
      injectedDown trace = text::close false::(if direction = .upstream then [] else [close true]) := by
  obtain ⟨up,down⟩ := injected_quiet forwards
  obtain ⟨laterUp,laterDown⟩ := injected_quiet passes
  simp only [injectedUp,injectedDown,List.filterMap_append,List.filterMap_cons] at up down laterUp laterDown ⊢
  rw [up,down,laterUp,laterDown,closing_eq]
  cases direction <;> simp

/-- A violation directs its frames as it should if and only if the callback it
fires in is the one on data from the client. -/
theorem wellDirected_iff (env : Env) (before : List Callback) (c : Callback)
    (alive : (session env before).1.killed = false)
    (cut : (session env (before ++ [c])).1.killed = true) (later : List Callback) :
    (∃ rule, WellDirected rule (session env (before ++ c::later)).2) ↔ c.direction = .upstream := by
  obtain ⟨quiet,v,forwards,calls⟩ := session_cut alive cut later
  obtain ⟨up,down⟩ := injected_cut forwards (passedOn_quiet later) c.direction v
  obtain ⟨text,close⟩ := closing_short v.rule
  rw [calls]
  constructor
  · rintro ⟨rule,directed,_⟩
    rw [up] at directed
    by_contra other
    simp [other] at directed
  · intro upstream
    refine ⟨v.rule,?_,?_⟩
    · rw [up,if_pos upstream,List.map_singleton,framed_parse true (by decide) close]
    · rw [down,if_pos upstream]
      simp only [List.map_cons,List.map_nil,framed_parse false (by decide : opText < 16) text,
        framed_parse false (by decide : opClose < 16) close]

theorem wellDirected_upstream :
    ∃ rule, WellDirected rule (session (listener "") [sends upgradeRequest,sends (message "EVENT")]).2 :=
  (wellDirected_iff (listener "") [sends upgradeRequest] (sends (message "EVENT"))
    (by decide +kernel) (by decide +kernel) []).mpr rfl

/-- The cut of a plain session that is answered 101 leaves the upstream unclosed. -/
theorem misdirected_switching :
    ¬ ∃ rule, WellDirected rule (session (listener "") [sends plainRequest,answers switching]).2 := by
  rintro ⟨rule,directed,_⟩
  have nothing : injectedUp (session (listener "") [sends plainRequest,answers switching]).2 = [] := by
    decide +kernel
  simp [nothing] at directed

end FipsShield.Engine
