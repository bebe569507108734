import FipsShield.Engine

/-! What any step of a live session amounts to: it forwards and goes on, or it
ends with the verdict and the frames of one violation. -/
namespace FipsShield.Engine
open Text FipsShield.Core

/-- A call that forwards data or records an inspection. -/
def Call.quiet : Call → Bool
  | .send _ _ => true
  | .inspected _ _ => true
  | _ => false

/-- The session goes on after quiet calls, or is cut by a violation that comes last. -/
def Outcome (done : St × List Call) : Prop :=
  (done.1.killed = false ∧ ∀ call ∈ done.2, call.quiet) ∨
    (done.1.killed = true ∧ ∃ before v, (∀ call ∈ before, call.quiet) ∧
      done.2 = before ++ .verdict v::closing v.rule)

/-- The part of the state that frames and violations leave alone. -/
def St.outer (st : St) : Mode × Bytes × Nat × Nat × Number × Bool :=
  (st.mode,st.hs,st.hsReads,st.hsScanned,st.banCheckAt,st.checkedResponse)

/-- A step that leaves the outer state alone. -/
def Advances (st : St) (done : St × List Call) : Prop := done.1.outer = st.outer ∧ Outcome done

theorem quiet_send (data : Bytes) (options : Options) :
    ∀ call ∈ [Call.send data options], call.quiet := by simp [Call.quiet]

theorem quiet_inspected (message : Bytes) (accepted : Bool) :
    ∀ call ∈ [Call.inspected message accepted], call.quiet := by simp [Call.quiet]

theorem Outcome.after {done : St × List Call} {calls : List Call} (quiet : ∀ call ∈ calls, call.quiet)
    (outcome : Outcome done) : Outcome (done.1,calls ++ done.2) := by
  rcases outcome with ⟨alive,later⟩ | ⟨killed,before,v,earlier,ends⟩
  · refine Or.inl ⟨alive,fun call member => ?_⟩
    exact (List.mem_append.mp member).elim (quiet call) (later call)
  · refine Or.inr ⟨killed,calls ++ before,v,fun call member => ?_,by simp [ends]⟩
    exact (List.mem_append.mp member).elim (quiet call) (earlier call)

theorem Outcome.live {st : St} {calls : List Call} (alive : st.killed = false)
    (quiet : ∀ call ∈ calls, call.quiet) : Outcome (st,calls) := Or.inl ⟨alive,quiet⟩

theorem Advances.mode {st : St} {done : St × List Call} (advances : Advances st done) :
    done.1.mode = st.mode := congrArg Prod.fst advances.1

theorem Advances.checked {st : St} {done : St × List Call} (advances : Advances st done) :
    done.1.checkedResponse = st.checkedResponse :=
  congrArg (fun outer => outer.2.2.2.2.2) advances.1

theorem Outcome.quiet {done : St × List Call} (outcome : Outcome done) (alive : done.1.killed = false) :
    ∀ call ∈ done.2, call.quiet := by
  rcases outcome with ⟨_,quiet⟩ | ⟨killed,_⟩
  · exact quiet
  · simp [alive] at killed

theorem Advances.then {st : St} {first second : St × List Call} (one : Advances st first)
    (other : first.1.killed = false → Advances first.1 second)
    (stops : first.1.killed = true → second = (first.1,[])) :
    Advances st (second.1,first.2 ++ second.2) := by
  cases killed : first.1.killed with
  | false =>
    obtain ⟨same,outcome⟩ := other killed
    exact ⟨same.trans one.1,outcome.after (one.2.quiet killed)⟩
  | true =>
    rw [stops killed]
    simpa using one

section Steps
variable (env : Env) (cfg : Cfg) {st : St}

theorem violate_alive (alive : st.killed = false) (rule : Rule) (detail : Str) :
    violate env cfg st rule detail =
      (cut st,.verdict (verdictOf env cfg st rule detail)::closing rule) := by
  rw [violate,if_neg (by simp [alive])]

theorem violate_advances (alive : st.killed = false) (rule : Rule) (detail : Str) :
    Advances st (violate env cfg st rule detail) := by
  rw [violate_alive env cfg alive]
  exact ⟨rfl,Or.inr ⟨rfl,[],_,by simp,rfl⟩⟩

theorem flushCalls_quiet (pending : List Bytes) : ∀ call ∈ flushCalls pending, call.quiet := by
  fun_induction flushCalls pending <;> simp_all [Call.quiet]

theorem flush_advances (alive : st.killed = false) : Advances st (flush st) :=
  ⟨rfl,.live alive (flushCalls_quiet st.pending)⟩

theorem inspect_advances (alive : st.killed = false) (buf : Bytes) :
    Advances st (inspect env cfg st buf) := by
  cases found : (police env cfg st.lim buf).1 with
  | none =>
    rw [inspect_accepts found]
    exact ⟨rfl,.live alive (by simp [Call.quiet])⟩
  | some v =>
    rw [inspect_rejects found]
    have violated := violate_advances env cfg
      (show (st.limited (police env cfg st.lim buf).2).killed = false from alive) v.rule v.detail
    exact ⟨violated.1,violated.2.after (quiet_inspected buf false)⟩

def policed (st : St) : St := (newMessage st).limited (police env cfg st.lim st.msgParts.flatten).2

theorem complete_accepts (alive : st.killed = false)
    (passed : (police env cfg st.lim st.msgParts.flatten).1 = none) :
    complete env cfg st = ((flush (policed env cfg st)).1,
      .inspected st.msgParts.flatten true::(flush (policed env cfg st)).2) := by
  have seen : inspect env cfg (newMessage st) st.msgParts.flatten = _ := inspect_accepts passed
  have live : ¬ (policed env cfg st).killed = true := by simp [policed,St.limited,newMessage,alive]
  simp only [complete,seen]
  exact if_neg live

theorem complete_rejects (alive : st.killed = false) {v : Violation}
    (found : (police env cfg st.lim st.msgParts.flatten).1 = some v) :
    complete env cfg st = (cut (policed env cfg st),.inspected st.msgParts.flatten false::
      .verdict (verdictOf env cfg (policed env cfg st) v.rule v.detail)::closing v.rule) := by
  have seen : inspect env cfg (newMessage st) st.msgParts.flatten = _ := inspect_rejects found
  have live : (policed env cfg st).killed = false := alive
  have violated := violate_alive env cfg live v.rule v.detail
  simp only [policed] at violated
  simp only [newMessage,St.limited] at seen violated
  simp only [complete,newMessage,seen,violated,policed,St.limited]
  rfl

theorem complete_advances (alive : st.killed = false) : Advances st (complete env cfg st) := by
  have seen := inspect_advances env cfg (show (newMessage st).killed = false from alive)
    st.msgParts.flatten
  simp only [complete]
  split_ifs with killed
  · exact seen
  · exact seen.then (fun alive => flush_advances alive) (fun dead => absurd dead killed)

theorem dataFrame_advances (alive : st.killed = false) (fin : Bool) (len : Nat) (payload : Bytes) :
    Advances st (dataFrame env cfg st fin len payload) := by
  unfold dataFrame
  split_ifs
  · exact violate_advances env cfg alive _ _
  · exact complete_advances env cfg (show (addPart st fin len payload).killed = false from alive)
  · exact ⟨rfl,.live alive (by simp)⟩

theorem takeFrame_advances (alive : st.killed = false) (fin : Bool) (op off len : Nat) :
    Advances st (takeFrame env cfg st fin op off len) := by
  have held : (hold st (frameEnd off len)).killed = false := alive
  simp only [takeFrame]
  split_ifs
  · exact violate_advances env cfg held _ _
  · unfold controlFrame
    split_ifs
    · exact ⟨rfl,.live held (by simp)⟩
    · exact flush_advances held
  · exact dataFrame_advances env cfg held fin len _

theorem pump_advances (alive : st.killed = false) : Advances st (pump env cfg st) := by
  revert alive
  refine pump_rule (motive := fun st done => st.killed = false → Advances st done) ?_ ?_ ?_ ?_ st
  · intro st killed alive
    simp [alive] at killed
  · intro st need _ _ alive
    exact ⟨rfl,.live alive (by simp)⟩
  · intro st v _ _ alive
    exact violate_advances env cfg alive _ _
  · intro st fin op off len _ _ ih alive
    exact (takeFrame_advances env cfg alive fin op off len).then ih (fun dead => pump_killed dead)

theorem classify_outcome (alive : st.killed = false) (stop : Nat) :
    Outcome (classify env cfg st stop) := by
  simp only [classify]
  split_ifs
  · have opened : (upgraded st stop).killed = false := alive
    exact (pump_advances env cfg opened).2.after (quiet_send _ _)
  · exact .live (show (passing st).killed = false from alive) (by simp [Call.quiet])
  · exact .live (show (passing st).killed = false from alive) (by simp [Call.quiet])

def RefusesHead (cfg : Cfg) (st : St) (data : Bytes) : Prop :=
  cfg.maxHsReads < (st.hsReads + 1 : Nat) ∨ maxHandshake < (st.hs ++ data).length ∨
    ∃ stop, headerBlockEnd (st.hs ++ data) (st.hsScanned - 2) = some stop ∧
      hasBareLf (st.hs ++ data) stop = true

/-- A read in handshake mode is refused, leaves the head incomplete, or completes it. -/
theorem handshake_cases (data : Bytes) :
    (RefusesHead cfg st data ∧ ∃ seen rule detail, seen.killed = st.killed ∧ seen.mode = st.mode ∧
        seen.checkedResponse = st.checkedResponse ∧ handshake env cfg st data =
          ((violate env cfg seen rule detail).1,(violate env cfg seen rule detail).2,false)) ∨
      (¬ RefusesHead cfg st data ∧ headerBlockEnd (st.hs ++ data) (st.hsScanned - 2) = none ∧
        handshake env cfg st data = (scanned st data,[],false)) ∨
      (¬ RefusesHead cfg st data ∧ ∃ stop,
        headerBlockEnd (st.hs ++ data) (st.hsScanned - 2) = some stop ∧
        hasBareLf (st.hs ++ data) stop = false ∧ handshake env cfg st data =
          ((classify env cfg (scanned st data) stop).1,(classify env cfg (scanned st data) stop).2,true)) := by
  unfold handshake RefusesHead
  by_cases many : cfg.maxHsReads < (st.hsReads + 1 : Nat)
  · exact Or.inl ⟨Or.inl many,{st with hsReads := st.hsReads + 1},_,_,rfl,rfl,rfl,if_pos many⟩
  · rw [if_neg many]
    by_cases large : maxHandshake < (st.hs ++ data).length
    · exact Or.inl ⟨Or.inr (Or.inl large),{st with hs := st.hs ++ data,hsReads := st.hsReads + 1},
        _,_,rfl,rfl,rfl,if_pos large⟩
    · rw [if_neg large]
      cases found : headerBlockEnd (st.hs ++ data) (st.hsScanned - 2) with
      | none => exact Or.inr (Or.inl ⟨by simp [many,large,-List.length_append],rfl,rfl⟩)
      | some stop =>
        cases bare : hasBareLf (st.hs ++ data) stop with
        | true =>
          exact Or.inl ⟨Or.inr (Or.inr ⟨stop,rfl,bare⟩),scanned st data,_,_,rfl,rfl,rfl,if_pos bare⟩
        | false => exact Or.inr (Or.inr ⟨by simp [many,large,bare,-List.length_append],stop,rfl,bare,if_neg (by simp [bare])⟩)

theorem receive_advances (alive : st.killed = false) (data : Bytes) :
    Advances st ((receive env cfg st data).1,(receive env cfg st data).2.1) := by
  unfold receive
  split_ifs
  · exact violate_advances env cfg (msgRead_alive alive) _ _
  · exact ⟨rfl,.live (show (buffered st data).killed = false from alive) (by simp)⟩
  · exact pump_advances env cfg (show (joined (buffered st data)).killed = false from alive)

theorem read_outcome (alive : st.killed = false) (data : Bytes) :
    Outcome ((read env cfg st data).1,(read env cfg st data).2.1) := by
  unfold read
  split_ifs
  · exact .live alive (by simp)
  · rcases handshake_cases env cfg data with
      ⟨_,seen,rule,detail,same,_,_,cuts⟩ | ⟨_,_,waits⟩ | ⟨_,stop,_,_,done⟩
    · rw [cuts]
      exact (violate_advances env cfg (same.trans alive) rule detail).2
    · rw [waits]
      exact .live alive (by simp)
    · rw [done]
      exact classify_outcome env cfg (scanned_alive alive data) stop
  · exact (receive_advances env cfg alive data).2

theorem finish_outcome {flags : Flags} {done : St × List Call × Bool}
    (outcome : Outcome (done.1,done.2.1)) : Outcome (finish flags done) := by
  unfold finish
  split_ifs
  · rcases outcome with ⟨alive,quiet⟩ | ⟨killed,ends⟩
    · refine .live alive fun call member => ?_
      rcases List.mem_append.mp member with earlier | last
      · exact quiet call earlier
      · unfold propagate at last
        split_ifs at last <;> simp_all [Call.quiet]
    · have nothing : propagate flags done.1 = [] := by simp_all [propagate]
      rw [nothing,List.append_nil]
      exact Or.inr ⟨killed,ends⟩
  · exact outcome

theorem banCheck_state (st : St) : ∃ time ticks, (banCheck env cfg st).2 = st.clocked time ticks := by
  simp only [banCheck]
  split_ifs
  · exact ⟨_,_,rfl⟩
  · exact ⟨_,_,rfl⟩
  · exact ⟨st.banCheckAt,st.lim.ticks,rfl⟩

theorem banCheck_plain (plain : st.mode = .plain) : banCheck env cfg st = (.ok false,st) := by
  simp [banCheck,plain]

/-- Why the ban check ends a session: the answer is due and is a ban or an exception. -/
def RefusesPeer (env : Env) (cfg : Cfg) (st : St) : Prop := (banCheck env cfg st).1 ≠ .ok false

theorem upstream_killed (killed : st.killed = true) (data : Bytes) (flags : Flags) :
    upstream env cfg st data flags = (st,[]) := by
  simp [upstream,onData,killed]

theorem banCheck_ticks (st : St) : st.lim.ticks ≤ (banCheck env cfg st).2.lim.ticks := by
  simp only [banCheck]
  split_ifs
  · exact Nat.le_succ _
  · exact Nat.le_succ _
  · exact Nat.le_refl _

theorem upstream_answered (alive : st.killed = false) (other : st.mode ≠ .plain) (data : Bytes) (flags : Flags) :
    upstream env cfg st data flags = match (banCheck env cfg st).1 with
      | .error e => violate env cfg (banCheck env cfg st).2 .engineError e
      | .ok true => violate env cfg (banCheck env cfg st).2 .banned (str "session-cut")
      | .ok false => finish flags (read env cfg (banCheck env cfg st).2 data) := by
  simp only [upstream,onData,alive,other,Bool.false_eq_true,if_false]
  cases (banCheck env cfg st).1 with
  | error e => rfl
  | ok banned => cases banned <;> rfl

/-- Data from the client on a live session: the ban check ends it, or the session
is plain and passes the data on, or the data is read. -/
theorem upstream_cases (alive : st.killed = false) (data : Bytes) (flags : Flags) :
    (RefusesPeer env cfg st ∧ st.mode ≠ .plain ∧ ∃ time ticks rule detail,
        upstream env cfg st data flags = violate env cfg (st.clocked time ticks) rule detail) ∨
      (st.mode = .plain ∧ upstream env cfg st data flags = (st,[.send data flags.options])) ∨
      (¬ RefusesPeer env cfg st ∧ st.mode ≠ .plain ∧ ∃ time ticks,
        upstream env cfg st data flags = finish flags (read env cfg (st.clocked time ticks) data)) := by
  obtain ⟨time,ticks,same⟩ := banCheck_state env cfg st
  by_cases plain : st.mode = .plain
  · exact Or.inr (Or.inl ⟨plain,by simp [upstream,onData,alive,banCheck_plain env cfg plain,plain]⟩)
  · rw [upstream_answered env cfg alive plain,same]
    cases answer : (banCheck env cfg st).1 with
    | error e => exact Or.inl ⟨by simp [RefusesPeer,answer],plain,time,ticks,.engineError,e,rfl⟩
    | ok banned =>
      cases banned with
      | true =>
        exact Or.inl ⟨by simp [RefusesPeer,answer],plain,time,ticks,.banned,str "session-cut",rfl⟩
      | false => exact Or.inr (Or.inr ⟨by simp [RefusesPeer,answer],plain,time,ticks,rfl⟩)

theorem upstream_outcome (alive : st.killed = false) (data : Bytes) (flags : Flags) :
    Outcome (upstream env cfg st data flags) := by
  rcases upstream_cases env cfg alive data flags with
    ⟨_,_,time,ticks,rule,detail,cuts⟩ | ⟨_,sends⟩ | ⟨_,_,time,ticks,reads⟩
  · rw [cuts]
    exact (violate_advances env cfg (clocked_alive alive time ticks) _ _).2
  · rw [sends]
    exact .live alive (by simp [Call.quiet])
  · rw [reads]
    exact finish_outcome (read_outcome env cfg (clocked_alive alive time ticks) data)

theorem downstream_outcome (alive : st.killed = false) (data : Bytes) (flags : Flags) :
    Outcome (downstream env cfg st data flags) := by
  simp only [downstream]
  split_ifs
  · exact (violate_advances env cfg (latched_alive alive) _ _).2
  · exact .live alive (by simp [Call.quiet])
  · exact .live alive (by simp [Call.quiet])

end Steps

theorem upstream_unbanned {env : Env} {cfg : Cfg} {st : St} (unbanned : cfg.banFile = [])
    (alive : st.killed = false) (data : Bytes) (flags : Flags) : upstream env cfg st data flags =
      if st.mode = .plain then (st,[.send data flags.options]) else finish flags (read env cfg st data) := by
  have free : banCheck env cfg st = (.ok false,st) := by simp [banCheck,unbanned]
  simp only [upstream,onData,alive,Bool.false_eq_true,if_false,free]
  split_ifs <;> rfl

end FipsShield.Engine
