import FipsShield.Handshake

/-! What an upgraded session forwards: the frames of the client's stream up to the
last message that passed inspection, and no byte more. -/
namespace FipsShield.Engine
open Text FipsShield.Core

def forwardedBy (calls : List Call) : Bytes :=
  calls.flatMap fun call => match call with
    | .send data _ => data
    | _ => []

def inspectedBy (calls : List Call) : List (Bytes × Bool) :=
  calls.filterMap fun call => match call with
    | .inspected message accepted => some (message,accepted)
    | _ => none

@[simp] theorem forwardedBy_append (first second : List Call) :
    forwardedBy (first ++ second) = forwardedBy first ++ forwardedBy second := List.flatMap_append

@[simp] theorem inspectedBy_append (first second : List Call) :
    inspectedBy (first ++ second) = inspectedBy first ++ inspectedBy second := List.filterMap_append

theorem forwardedBy_inspected (message : Bytes) (accepted : Bool) (calls : List Call) :
    forwardedBy (.inspected message accepted::calls) = forwardedBy calls := rfl

theorem inspectedBy_inspected (message : Bytes) (accepted : Bool) (calls : List Call) :
    inspectedBy (.inspected message accepted::calls) = (message,accepted)::inspectedBy calls := rfl

theorem forwardedUp_calls (calls : List Call) :
    forwardedUp (calls.map (Prod.mk .upstream)) = forwardedBy calls := by
  rw [forwardedUp,List.flatMap_map,forwardedBy]
  apply List.flatMap_congr
  intro call _
  cases call <;> rfl

theorem forwardedUp_downstream (calls : List Call) : forwardedUp (calls.map (Prod.mk .downstream)) = [] := by
  rw [forwardedUp,List.flatMap_map,List.flatMap_eq_nil_iff]
  intro call _
  cases call <;> rfl

theorem inspections_calls (direction : Direction) (calls : List Call) :
    inspections (calls.map (Prod.mk direction)) = inspectedBy calls := by
  rw [inspections,List.filterMap_map,inspectedBy]
  rfl

/-- The bytes sent are whole frames at the start of the body with no message open, and
their messages are those inspected and accepted, in order; at most a last one was not. -/
structure Inspected (body sent : Bytes) (log : List (Bytes × Bool)) : Prop where
  started : sent <+: body
  whole : (Frame.split sent).2 = []
  closed : (assemble (Frame.split sent).1).isOpen = false
  logged : ∃ rejected : List Bytes, rejected.length ≤ 1 ∧
    log = (assemble (Frame.split sent).1).messages.map (·,true) ++ rejected.map (·,false)

/-- What a live session holds and has buffered follows what it has sent, and its open
message is the one its frames so far leave open. -/
structure Ready (body : Bytes) (fs : List Frame) (st : St) (sent : Bytes) (log : List (Bytes × Bool)) :
    Prop where
  stream : body = sent ++ st.pending.flatten ++ st.acc ++ st.chunks.flatten
  frames : Frame.split (sent ++ st.pending.flatten) = (fs,[])
  parts : (assemble fs).parts = st.msgParts
  isOpen : (assemble fs).isOpen = st.inMsg
  logged : log = (assemble fs).messages.map (·,true)

/-- It holds frames only behind an open message. -/
structure Live (body : Bytes) (st : St) (sent : Bytes) (log : List (Bytes × Bool)) : Prop where
  ready : ∃ fs, Ready body fs st sent log
  idle : st.inMsg = false → st.pending = []

structure Flow (body : Bytes) (st : St) (sent : Bytes) (log : List (Bytes × Bool)) : Prop where
  inspected : Inspected body sent log
  live : st.killed = false → Live body st sent log

def FlowAfter (body : Bytes) (done : St × List Call) (sent : Bytes) (log : List (Bytes × Bool)) : Prop :=
  Flow body done.1 (sent ++ forwardedBy done.2) (log ++ inspectedBy done.2)

theorem forwardedBy_closing (v : Verdict) (rule : Rule) :
    forwardedBy (.verdict v::closing rule) = [] ∧ inspectedBy (.verdict v::closing rule) = [] := by
  rw [closing_eq]
  exact ⟨rfl,rfl⟩

section Steps
variable {env : Env} {cfg : Cfg} {body sent : Bytes} {st : St} {log : List (Bytes × Bool)}

theorem Inspected.violate (inspected : Inspected body sent log) (alive : st.killed = false) (rule : Rule)
    (detail : Str) : FlowAfter body (violate env cfg st rule detail) sent log := by
  obtain ⟨forwarded,logged⟩ := forwardedBy_closing (verdictOf env cfg st rule detail) rule
  rw [FlowAfter,violate_alive env cfg alive,forwarded,logged,List.append_nil,List.append_nil]
  exact ⟨inspected,fun dead => by simp [cut] at dead⟩

theorem Inspected.accepted (inspected : Inspected body sent log) {messages : List Bytes}
    (logged : log = messages.map (·,true)) :
    log = (assemble (Frame.split sent).1).messages.map (·,true) := by
  obtain ⟨rejected,_,same⟩ := inspected.logged
  cases rejected with
  | nil => simpa using same
  | cons first others =>
    have member : (first,false) ∈ messages.map (·,true) := by
      rw [← logged,same]
      simp
    simp at member

theorem forwardedBy_flushCalls (pending : List Bytes) : forwardedBy (flushCalls pending) = pending.flatten := by
  fun_induction flushCalls pending with
  | case1 => rfl
  | case2 raw => simp [forwardedBy]
  | case3 raw rest _ ih => simpa [forwardedBy] using ih

theorem inspectedBy_flushCalls (pending : List Bytes) : inspectedBy (flushCalls pending) = [] := by
  fun_induction flushCalls pending with
  | case1 => rfl
  | case2 raw => rfl
  | case3 raw rest _ ih => simpa [inspectedBy] using ih

theorem Ready.flush {fs : List Frame} (ready : Ready body fs st sent log) (settled : st.inMsg = false) :
    FlowAfter body (flush st) sent log := by
  have frames : Frame.split ((sent ++ st.pending.flatten) ++ ([] : List Bytes).flatten) = (fs,[]) := by
    rw [List.flatten_nil,List.append_nil]
    exact ready.frames
  rw [FlowAfter,Engine.flush,forwardedBy_flushCalls,inspectedBy_flushCalls,List.append_nil]
  refine ⟨⟨?_,?_,?_,?_⟩,fun _ => ⟨⟨fs,?_,frames,ready.parts,ready.isOpen,ready.logged⟩,fun _ => rfl⟩⟩
  · rw [ready.stream,List.append_assoc _ st.acc]
    exact List.prefix_append _ _
  · rw [ready.frames]
  · rw [ready.frames]
    exact ready.isOpen.trans settled
  · refine ⟨[],Nat.zero_le 1,?_⟩
    rw [ready.frames,ready.logged]
    exact (List.append_nil _).symm
  · simpa using ready.stream

theorem Ready.hold {fs : List Frame} (ready : Ready body fs st sent log)
    (inspected : Inspected body sent log) (waiting : st.inMsg = true) :
    FlowAfter body (st,[]) sent log := by
  refine ⟨?_,fun _ => ⟨⟨fs,?_⟩,fun closed => by simp [waiting] at closed⟩⟩
  · simpa [forwardedBy,inspectedBy] using inspected
  · simpa [forwardedBy,inspectedBy] using ready

/-- A message that is complete is inspected, and released if it is accepted. -/
theorem complete_flow {fs : List Frame} {earlier : List Bytes} (inspected : Inspected body sent log)
    (alive : st.killed = false) (settled : st.inMsg = false)
    (stream : body = sent ++ st.pending.flatten ++ st.acc ++ st.chunks.flatten)
    (frames : Frame.split (sent ++ st.pending.flatten) = (fs,[]))
    (closed : (assemble fs).parts = [] ∧ (assemble fs).isOpen = false)
    (messages : (assemble fs).messages = earlier ++ [st.msgParts.flatten])
    (logged : log = earlier.map (·,true)) : FlowAfter body (complete env cfg st) sent log := by
  cases found : (police env cfg st.lim st.msgParts.flatten).1 with
  | none =>
    rw [complete_accepts env cfg alive found]
    have ready : Ready body fs (policed env cfg st) sent (log ++ [(st.msgParts.flatten,true)]) :=
      ⟨stream,frames,closed.1,closed.2.trans settled.symm,by simp [messages,logged]⟩
    have released := ready.flush settled
    simpa [FlowAfter,forwardedBy,inspectedBy,List.append_assoc] using released
  | some v =>
    rw [complete_rejects env cfg alive found]
    obtain ⟨forwarded,silent⟩ := forwardedBy_closing
      (verdictOf env cfg (policed env cfg st) v.rule v.detail) v.rule
    rw [FlowAfter,forwardedBy_inspected,inspectedBy_inspected,forwarded,silent,List.append_nil]
    refine ⟨⟨inspected.started,inspected.whole,inspected.closed,[st.msgParts.flatten],Nat.le_refl 1,?_⟩,
      fun dead => by simp [cut] at dead⟩
    exact congrArg (· ++ [(st.msgParts.flatten,false)]) (inspected.accepted logged)

theorem dataFrame_flow {fs : List Frame} (f : Frame) {fin : Bool} (len : Nat)
    (inspected : Inspected body sent log) (alive : st.killed = false)
    (stream : body = sent ++ st.pending.flatten ++ st.acc ++ st.chunks.flatten)
    (frames : Frame.split (sent ++ st.pending.flatten) = (fs ++ [f],[]))
    (parts : (assemble fs).parts = st.msgParts) (logged : log = (assemble fs).messages.map (·,true))
    (data : f.control = false) (last : f.fin = fin) :
    FlowAfter body (dataFrame env cfg st fin len f.payload) sent log := by
  have added := assemble_concat fs f
  unfold dataFrame
  split_ifs with many final
  · exact inspected.violate alive _ _
  · obtain ⟨messages,cleared,closed⟩ := (assemble fs).add_final data (last.trans final)
    apply complete_flow inspected (show (addPart st fin len f.payload).killed = false from alive)
      (by simp [addPart,final]) stream frames
    · rw [added]
      exact ⟨cleared,closed⟩
    · rw [added,messages,parts]
      rfl
    · exact logged
  · obtain ⟨messages,longer,opened⟩ := (assemble fs).add_part data (last.trans (by simpa using final))
    have ready : Ready body (fs ++ [f]) (addPart st fin len f.payload) sent log := by
      refine ⟨stream,frames,?_,?_,?_⟩
      · rw [added,longer,parts]
        rfl
      · rw [added,opened]
        simp [addPart,final]
      · rw [added,messages]
        exact logged
    exact ready.hold inspected (by simp [addPart,final])

theorem takeFrame_flow {fin : Bool} {op off len : Nat} (flow : Flow body st sent log)
    (alive : st.killed = false) (found : frameHeader cfg st.inMsg st.msgLen st.acc = .frame fin op off len) :
    FlowAfter body (takeFrame env cfg st fin op off len) sent log := by
  obtain ⟨⟨fs,ready⟩,idle⟩ := flow.live alive
  obtain ⟨inside,_,parsed⟩ := frameHeader_frame found
  obtain ⟨cut,_⟩ := Frame.parse_raw parsed
  generalize taken : frameOf st.acc fin op off len = f at parsed cut
  have raw : Buffer.slice st.acc 0 (frameEnd off len) = f.raw := by rw [← taken,frameOf]
  have held : (hold st (frameEnd off len)).killed = false := alive
  have pending : sent ++ (hold st (frameEnd off len)).pending.flatten =
      sent ++ st.pending.flatten ++ f.raw := by simp [hold,raw]
  have stream : body = sent ++ (hold st (frameEnd off len)).pending.flatten ++
      (hold st (frameEnd off len)).acc ++ (hold st (frameEnd off len)).chunks.flatten := by
    rw [pending,ready.stream]
    conv_lhs => rw [cut]
    simp [hold]
  have frames := Frame.split_frame ready.frames parsed
  rw [← pending] at frames
  have added := assemble_concat fs f
  simp only [takeFrame]
  split_ifs with many large
  · exact flow.inspected.violate held _ _
  · have control : f.control = true := by simpa [← taken,frameOf,Frame.control] using large
    obtain ⟨messages,parts,isOpen⟩ := (assemble fs).add_control control
    have ready' : Ready body (fs ++ [f]) (hold st (frameEnd off len)) sent log := by
      refine ⟨stream,frames,?_,?_,?_⟩
      · rw [added]
        exact parts.trans ready.parts
      · rw [added]
        exact isOpen.trans ready.isOpen
      · rw [added,messages]
        exact ready.logged
    unfold controlFrame
    split_ifs with waiting
    · exact ready'.hold flow.inspected waiting
    · exact ready'.flush (by simpa using waiting)
  · have data : f.control = false := by simpa [← taken,frameOf,Frame.control] using large
    have payload : Frame.unmask (Buffer.slice st.acc off (off + 4))
        (Buffer.slice st.acc (off + 4) (frameEnd off len)) = f.payload := by rw [← taken,frameOf]
    have last : f.fin = fin := by rw [← taken,frameOf]
    rw [payload]
    exact dataFrame_flow f len flow.inspected held stream frames ready.parts ready.logged data last

theorem FlowAfter.then {first second : St × List Call} (one : FlowAfter body first sent log)
    (other : ∀ sent log, Flow body first.1 sent log → FlowAfter body second sent log) :
    FlowAfter body (second.1,first.2 ++ second.2) sent log := by
  have both := other _ _ one
  simpa [FlowAfter] using both

theorem pump_flow (flow : Flow body st sent log) : FlowAfter body (pump env cfg st) sent log := by
  refine pump_rule (motive := fun st done => ∀ sent log, Flow body st sent log →
    FlowAfter body done sent log) ?_ ?_ ?_ ?_ st sent log flow
  · intro st _ sent log flow
    simpa [FlowAfter,forwardedBy,inspectedBy] using flow
  · intro st need alive _ sent log flow
    have live := flow.live alive
    obtain ⟨fs,ready⟩ := live.ready
    simp only [FlowAfter,forwardedBy,inspectedBy,List.flatMap_nil,List.filterMap_nil,List.append_nil]
    exact ⟨flow.inspected,fun _ => ⟨⟨fs,ready.stream,ready.frames,ready.parts,ready.isOpen,ready.logged⟩,live.idle⟩⟩
  · intro st v alive _ sent log flow
    exact flow.inspected.violate alive _ _
  · intro st fin op off len alive found ih sent log flow
    exact (takeFrame_flow flow alive found).then ih

theorem Inspected.extend (inspected : Inspected body sent log) (more : Bytes) :
    Inspected (body ++ more) sent log :=
  ⟨inspected.started.trans (List.prefix_append body more),inspected.whole,inspected.closed,inspected.logged⟩

/-- What a live session holds, as far as the flow depends on it. -/
def St.inner (st : St) : Bytes × List Bytes × List Bytes × Bool :=
  (st.acc ++ st.chunks.flatten,st.pending,st.msgParts,st.inMsg)

theorem Live.same {other : St} (live : Live body st sent log) (same : other.inner = st.inner) :
    Live body other sent log := by
  obtain ⟨fs,ready⟩ := live.ready
  simp only [St.inner,Prod.mk.injEq] at same
  obtain ⟨buffer,pending,parts,inMsg⟩ := same
  refine ⟨⟨fs,?_,?_,?_,?_,ready.logged⟩,?_⟩
  · rw [List.append_assoc _ other.acc,buffer,pending,← List.append_assoc]
    exact ready.stream
  · rw [pending]
    exact ready.frames
  · rw [parts]
    exact ready.parts
  · rw [inMsg]
    exact ready.isOpen
  · rw [inMsg,pending]
    exact live.idle

theorem Flow.same {other : St} (flow : Flow body st sent log) (same : other.inner = st.inner)
    (killed : other.killed = st.killed) : Flow body other sent log :=
  ⟨flow.inspected,fun alive => (flow.live (killed ▸ alive)).same same⟩

theorem Flow.arrive (flow : Flow body st sent log) (data : Bytes) :
    Flow (body ++ data) (buffered st data) sent log := by
  refine ⟨flow.inspected.extend data,fun alive => ?_⟩
  obtain ⟨⟨fs,ready⟩,idle⟩ := flow.live alive
  refine ⟨⟨fs,?_,ready.frames,ready.parts,ready.isOpen,ready.logged⟩,idle⟩
  rw [ready.stream]
  simp [buffered,msgRead]

theorem receive_flow (flow : Flow body st sent log) (alive : st.killed = false) (data : Bytes) :
    FlowAfter (body ++ data) ((receive env cfg st data).1,(receive env cfg st data).2.1) sent log := by
  have arrived := flow.arrive data
  unfold receive
  split_ifs
  · exact (flow.inspected.extend data).violate (msgRead_alive alive) _ _
  · simpa [FlowAfter,forwardedBy,inspectedBy] using arrived
  · apply pump_flow
    exact arrived.same (by simp [St.inner,joined]) rfl

theorem Idle.flow (idle : Idle st) (stop : Nat) :
    Flow (st.hs.drop stop) (upgraded st stop) [] [] := by
  have nothing : (upgraded st stop).pending = [] := idle.pending
  refine ⟨⟨List.nil_prefix,?_,?_,[],Nat.zero_le 1,?_⟩,fun _ => ⟨⟨[],?_,?_,?_,?_,rfl⟩,fun _ => nothing⟩⟩
  · rw [Frame.split_nil]
  · rw [Frame.split_nil]
    rfl
  · rw [Frame.split_nil]
    rfl
  · rw [nothing]
    simp [upgraded,idle.chunks]
  · rw [nothing]
    exact Frame.split_nil
  · exact idle.msgParts.symm
  · exact idle.inMsg.symm

end Steps

/-- A run so far: an upgraded session has forwarded its head, then inspected frames of
the body; a session still in its handshake nothing. -/
structure Inspecting (stream : Bytes) (st : St) (trace : Trace) : Prop where
  sniffing : st.mode = .handshake → forwardedUp trace = [] ∧ inspections trace = []
  upgraded : st.mode = .ws → ∃ head body sent, CutHead stream head ∧ stream = head ++ body ∧
    forwardedUp trace = fromString (Text.toString head) ++ sent ∧ Flow body st sent (inspections trace)

theorem inspections_upstream (calls : List Call) :
    inspections (calls.map (Prod.mk .upstream)) = inspectedBy calls := inspections_calls _ _

theorem classify_ws (env : Env) (cfg : Cfg) {st : St} {stop : Nat}
    (asks : upgradeTest (Text.toString (st.hs.take stop)) = true) :
    classify env cfg st stop = ((pump env cfg (upgraded st stop)).1,
      .send (fromString (Text.toString (st.hs.take stop))) {}::(pump env cfg (upgraded st stop)).2) := by
  simp only [classify,Buffer.slice,List.drop_zero,if_pos asks]

theorem classify_plain (env : Env) (cfg : Cfg) {st : St} {stop : Nat}
    (other : upgradeTest (Text.toString (st.hs.take stop)) = false) :
    classify env cfg st stop = (passing st,if st.hs.drop stop ≠ [] then
        [.send (fromString (Text.toString (st.hs.take stop))) {},.send (st.hs.drop stop) {}]
      else [.send (fromString (Text.toString (st.hs.take stop))) {}]) := by
  simp only [classify,Buffer.slice,List.drop_zero,other,Bool.false_eq_true,if_false]

theorem forwardedUp_silent {trace : Trace} (silent : toUpstream trace = []) : forwardedUp trace = [] := by
  rw [toUpstream,List.flatMap_eq_nil_iff] at silent
  apply List.flatMap_eq_nil_iff.mpr
  intro entry member
  obtain ⟨direction,call⟩ := entry
  have nothing := silent _ member
  cases direction <;> cases call <;> first | exact nothing | rfl

/-! ## Runs -/

/-- A relation between the bytes after the head, the state, those that were sent, and the
messages inspected. -/
abbrev Account := Bytes → St → Bytes → List (Bytes × Bool) → Prop

def Account.After (Q : Account) (body : Bytes) (done : St × List Call) (sent : Bytes) (log : List (Bytes × Bool)) : Prop :=
  Q body done.1 (sent ++ forwardedBy done.2) (log ++ inspectedBy done.2)

/-- What an upgraded session can do keeps the relation. -/
structure Carries (env : Env) (cfg : Cfg) (Q : Account) : Prop where
  enters : ∀ (st : St) stop, Idle st → st.killed = false →
    Q.After (st.hs.drop stop) (pump env cfg (upgraded st stop)) [] []
  rests : ∀ body st sent log data, st.killed = true → Q body st sent log → Q (body ++ data) st sent log
  clocked : ∀ body st sent log time ticks, Q body st sent log → Q body (st.clocked time ticks) sent log
  violates : ∀ body st sent log data rule detail, st.killed = false → Q body st sent log →
    Q.After (body ++ data) (violate env cfg st rule detail) sent log
  receives : ∀ body st sent log data, st.killed = false → Q body st sent log →
    Q.After (body ++ data) ((receive env cfg st data).1,(receive env cfg st data).2.1) sent log

/-- A run so far: an upgraded session has forwarded its head, and what it sent of the body
is as the relation says; a session still in its handshake has sent nothing. -/
structure Carried (Q : Account) (stream : Bytes) (st : St) (trace : Trace) : Prop where
  sniffing : st.mode = .handshake → forwardedUp trace = [] ∧ inspections trace = []
  upgraded : st.mode = .ws → ∃ head body sent, CutHead stream head ∧ stream = head ++ body ∧
    forwardedUp trace = fromString (Text.toString head) ++ sent ∧ Q body st sent (inspections trace)

section Run
variable {env : Env} {cfg : Cfg} {Q : Account} {st : St} {stream : Bytes} {trace : Trace}

theorem Account.After.finish {body sent : Bytes} {log : List (Bytes × Bool)} {flags : Flags}
    {done : St × List Call × Bool} (after : Q.After body (done.1,done.2.1) sent log) :
    Q.After body (finish flags done) sent log := by
  have silent : forwardedBy (propagate flags done.1) = [] ∧ inspectedBy (propagate flags done.1) = [] := by
    unfold propagate
    split_ifs <;> exact ⟨rfl,rfl⟩
  unfold Engine.finish
  split_ifs
  · simpa [Account.After,silent.1,silent.2] using after
  · exact after

theorem Account.After.idle {body sent : Bytes} {log : List (Bytes × Bool)} (holds : Q body st sent log) :
    Q.After body (st,[]) sent log := by
  simpa [Account.After,forwardedBy,inspectedBy] using holds

variable (carries : Carries env cfg Q)
include carries

theorem upstream_accounts {body sent : Bytes} {log : List (Bytes × Bool)}
    (holds : Q body st sent log) (ws : st.mode = .ws) (data : Bytes) (flags : Flags) :
    Q.After (body ++ data) (upstream env cfg st data flags) sent log := by
  cases alive : st.killed with
  | true =>
    rw [upstream_killed env cfg alive]
    exact .idle (carries.rests _ _ _ _ data alive holds)
  | false =>
    rcases upstream_cases env cfg alive data flags with
      ⟨_,_,time,ticks,rule,detail,cuts⟩ | ⟨plain,_⟩ | ⟨_,_,time,ticks,reads⟩
    · rw [cuts]
      exact carries.violates _ _ _ _ data rule detail (clocked_alive alive time ticks)
        (carries.clocked _ _ _ _ time ticks holds)
    · simp [ws] at plain
    · have started := carries.clocked _ _ _ _ time ticks holds
      rw [reads]
      apply Account.After.finish
      unfold read
      split_ifs with empty sniffing
      · rw [empty,List.append_nil]
        exact .idle started
      · exact absurd (ws.symm.trans sniffing) (by decide)
      · exact carries.receives _ _ _ _ data alive started

theorem classify_accounts (idle : Idle st) (alive : st.killed = false) (stop : Nat) (flags : Flags)
    (asks : upgradeTest (Text.toString (st.hs.take stop)) = true) :
    ∃ sent, forwardedBy (finish flags ((classify env cfg st stop).1,(classify env cfg st stop).2,true)).2 =
        fromString (Text.toString (st.hs.take stop)) ++ sent ∧
      Q (st.hs.drop stop) (classify env cfg st stop).1 sent
        (inspectedBy (finish flags ((classify env cfg st stop).1,(classify env cfg st stop).2,true)).2) := by
  have ended : Q.After _ (finish flags ((pump env cfg (upgraded st stop)).1,
      (pump env cfg (upgraded st stop)).2,true)) [] [] := (carries.enters st stop idle alive).finish
  rw [classify_ws env cfg asks]
  exact ⟨_,rfl,ended⟩

theorem Sniffing.carried (sniffs : Sniffing st stream) (earlier : Carried Q stream st trace)
    (c : Callback) : Carried Q (stream ++ c.sent) (respond env cfg st c).1
      (trace ++ (respond env cfg st c).2.map (Prod.mk c.direction)) := by
  obtain ⟨nothing,unseen⟩ := earlier.sniffing sniffs.mode
  rcases respond_sniffing env cfg sniffs c with
    ⟨_,up,seen,rule,detail,alive,mode,cuts⟩ | ⟨_,still,silent,quiet⟩ |
    ⟨_,data,flags,time,ticks,stop,rfl,found,clean,done⟩
  · rw [cuts,up,violate_alive env cfg alive]
    obtain ⟨forwarded,logged⟩ := forwardedBy_closing (verdictOf env cfg seen rule detail) rule
    have sniffing : (cut seen).mode = .handshake := mode
    refine ⟨fun _ => ?_,fun ws => absurd (sniffing.symm.trans ws) (by decide)⟩
    rw [forwardedUp_append,inspections_append,nothing,unseen,forwardedUp_calls,inspections_upstream,
      List.nil_append,List.nil_append]
    exact ⟨forwarded,logged⟩
  · refine ⟨fun _ => ?_,fun ws => absurd (still.mode.symm.trans ws) (by decide)⟩
    rw [forwardedUp_append,inspections_append,nothing,unseen,forwardedUp_silent silent,quiet]
    exact ⟨rfl,rfl⟩
  · have started := sniffs.clocked time ticks
    have hs : (scanned (st.clocked time ticks) data).hs = stream ++ data :=
      congrArg (· ++ data) started.whole
    have live := scanned_alive started.alive data
    obtain ⟨mode,_⟩ := classify_accepts env cfg live stop
    have idle : Idle (scanned (st.clocked time ticks) data) := started.idle.same rfl
    generalize scanned (st.clocked time ticks) data = ready at done hs mode idle live
    have upgrades := classify_accounts carries idle live stop flags
    rw [hs] at mode upgrades
    rw [done]
    refine ⟨fun sniffing => ?_,fun ws => ?_⟩
    · have still := mode.symm.trans sniffing
      split_ifs at still
    · have asks : upgradeTest (Text.toString ((stream ++ data).take stop)) = true := by
        by_contra other
        have plain := mode.symm.trans ws
        simp [other] at plain
      obtain ⟨sent,forwarded,holds⟩ := upgrades asks
      refine ⟨_,_,sent,⟨stop,found,clean,rfl⟩,(List.take_append_drop stop _).symm,?_,?_⟩
      · rw [forwardedUp_append,nothing]
        exact (forwardedUp_calls _).trans forwarded
      · rw [inspections_append,unseen]
        exact (inspections_upstream _) ▸ holds

theorem Carried.step {sent : Bytes} (earlier : Carried Q stream st trace)
    (phase : Phase st stream sent) (settled : Settled st) (c : Callback) :
    Carried Q (stream ++ c.sent) (respond env cfg st c).1
      (trace ++ (respond env cfg st c).2.map (Prod.mk c.direction)) := by
  cases phase with
  | sniffing sniffs _ => exact sniffs.carried carries earlier c
  | refused killed mode rule _ =>
    obtain ⟨nothing,unseen⟩ := earlier.sniffing mode
    rw [respond_killed env cfg killed settled]
    refine ⟨fun _ => ?_,fun ws => absurd (mode.symm.trans ws) (by decide)⟩
    rw [forwardedUp_append,inspections_append,nothing,unseen]
    cases c <;> exact ⟨rfl,rfl⟩
  | accepted head accepts =>
    have kept := respond_mode env cfg accepts.mode_ne c
    refine ⟨fun sniffing => absurd (kept.symm.trans sniffing) accepts.mode_ne,fun ws => ?_⟩
    have upgraded := kept.symm.trans ws
    obtain ⟨head,body,sent,cut,whole,forwarded,holds⟩ := earlier.upgraded upgraded
    refine ⟨head,body ++ c.sent,?_⟩
    cases c with
    | upstream data flags =>
      have next := upstream_accounts carries holds upgraded data flags
      refine ⟨sent ++ forwardedBy (upstream env cfg st data flags).2,cut.append data,?_,?_,?_⟩
      · rw [whole,List.append_assoc]
      · simp only [Callback.direction,respond,forwardedUp_append,forwarded,forwardedUp_calls,List.append_assoc]
      · simp only [Callback.direction,respond,inspections_append,inspections_upstream]
        exact next
    | downstream data flags =>
      rw [respond_other env cfg (by simp [upgraded])]
      refine ⟨sent,cut.append _,by rw [whole,List.append_assoc],?_,?_⟩
      · rw [forwardedUp_append,forwarded]
        exact List.append_nil _
      · rw [inspections_append]
        simpa [Callback.sent,inspections] using holds

end Run

/-- A relation that every step of an upgraded session keeps holds after every session. -/
theorem session_carried (env : Env) {Q : Account} (carries : Carries env (readCfg env) Q) (callbacks : List Callback) :
    Carried Q (clientStream callbacks) (session env callbacks).1 (session env callbacks).2 := by
  induction callbacks using List.reverseRecOn with
  | nil => exact ⟨fun _ => ⟨rfl,rfl⟩,fun ws => by simp [session,filter] at ws⟩
  | append_singleton before c ih =>
    have stream : clientStream (before ++ [c]) = clientStream before ++ c.sent := clientStream_concat before c
    rw [stream,session_concat]
    exact ih.step carries (session_phase env before) (session_settled env before) c

theorem flow_carries (env : Env) (cfg : Cfg) : Carries env cfg Flow where
  enters _ stop idle _ := pump_flow (idle.flow stop)
  rests _ _ _ _ data killed flow := ⟨flow.inspected.extend data,fun live => by simp [killed] at live⟩
  clocked _ _ _ _ _ _ flow := flow.same rfl rfl
  violates _ _ _ _ data rule detail alive flow := (flow.inspected.extend data).violate alive rule detail
  receives _ _ _ _ data alive flow := receive_flow flow alive data

theorem session_inspecting (env : Env) (callbacks : List Callback) :
    Inspecting (clientStream callbacks) (session env callbacks).1 (session env callbacks).2 := by
  have carried := session_carried env (flow_carries env (readCfg env)) callbacks
  exact ⟨carried.sniffing,carried.upgraded⟩

/-- In WebSocket mode the bytes forwarded after the head are whole frames at the start of
the client's bytes after it, with no message open; their messages are exactly those that
were inspected and accepted, in order, and at most a last one was rejected. -/
theorem inspected_forwarded (env : Env) (callbacks : List Callback)
    (upgraded : (session env callbacks).1.mode = .ws) :
    ∃ head body sent, CutHead (clientStream callbacks) head ∧ clientStream callbacks = head ++ body ∧
      forwardedUp (session env callbacks).2 = fromString (Text.toString head) ++ sent ∧
      Inspected body sent (inspections (session env callbacks).2) := by
  obtain ⟨head,body,sent,cut,stream,forwarded,flow⟩ := (session_inspecting env callbacks).upgraded upgraded
  exact ⟨head,body,sent,cut,stream,forwarded,flow.inspected⟩

theorem inspected_request :
    ∃ head body sent, CutHead (clientStream [sends upgradeRequest,sends (message "[\"CLOSE\",\"a\"]")]) head ∧
      clientStream [sends upgradeRequest,sends (message "[\"CLOSE\",\"a\"]")] = head ++ body ∧
      forwardedUp (session (listener "") [sends upgradeRequest,sends (message "[\"CLOSE\",\"a\"]")]).2 =
        fromString (Text.toString head) ++ sent ∧
      Inspected body sent
        (inspections (session (listener "") [sends upgradeRequest,sends (message "[\"CLOSE\",\"a\"]")]).2) :=
  inspected_forwarded (listener "") [sends upgradeRequest,sends (message "[\"CLOSE\",\"a\"]")]
    (by decide +kernel)

end FipsShield.Engine
