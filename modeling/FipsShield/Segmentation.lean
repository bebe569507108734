import FipsShield.Segments
import FipsShield.Verdicts

/-! The engine on any segmentation of the client's stream, against one that keeps
everything it has received and reads it from the start. -/
namespace FipsShield.Engine
open Text FipsShield.Core

/-- A session that holds this much and has looked at none of it. -/
def holding (env : Env) (cfg : Cfg) (stream : Bytes) : St := {filter env cfg with hs := stream}

/-- The plain engine: all that has been received is one buffer, read from its start. -/
def plainEngine (env : Env) (cfg : Cfg) (stream : Bytes) : St × List Call :=
  match headerBlockEnd stream 0 with
  | none => (holding env cfg stream,[])
  | some stop =>
    if hasBareLf stream stop then
      violate env cfg (holding env cfg stream) .protocol (str "bare-lf-in-handshake")
    else classify env cfg (holding env cfg stream) stop

def observe (trace : Trace) : Bytes × Bytes × List Verdict :=
  (toUpstream trace,toClient trace,verdicts trace)

def fromClient (calls : List Call) : Trace := calls.map (Prod.mk .upstream)

def Tripped (v : Verdict) : Prop :=
  Drip v ∨ v.rule = .protocol ∧ v.detail = str "handshake-drip" ∨ v.rule = .oversizedHandshake

def Untripped (trace : Trace) : Prop := ∀ v ∈ verdicts trace, ¬ Tripped v

instance (v : Verdict) : Decidable (Tripped v) := inferInstanceAs (Decidable (_ ∧ _ ∨ _))
instance (trace : Trace) : Decidable (Untripped trace) :=
  inferInstanceAs (Decidable (∀ v ∈ verdicts trace, ¬ Tripped v))

def IsSegment : Callback → Prop
  | .upstream data _ => data ≠ []
  | .downstream _ _ => False

instance : (c : Callback) → Decidable (IsSegment c)
  | .upstream data _ => inferInstanceAs (Decidable (data ≠ []))
  | .downstream _ _ => inferInstanceAs (Decidable False)

theorem observe_append {first second : Trace} (same : observe first = observe second) (later : Trace) :
    observe (first ++ later) = observe (second ++ later) := by
  simp only [observe,Prod.mk.injEq] at same
  obtain ⟨up,down,verdict⟩ := same
  simp only [observe,toUpstream_append,toClient_append,verdicts_append,up,down,verdict]

theorem observe_propagate (flags : Flags) (st : St) (trace : Trace) :
    observe (trace ++ fromClient (propagate flags st)) = observe trace := by
  have silent : observe (fromClient (propagate flags st)) = ([],[],[]) := by
    unfold propagate
    split_ifs <;> rfl
  simp only [observe,Prod.mk.injEq] at silent
  simp only [observe,toUpstream_append,toClient_append,verdicts_append,silent.1,silent.2.1,silent.2.2,
    List.append_nil]

theorem Untripped.append {first second : Trace} (untripped : Untripped (first ++ second)) :
    Untripped first ∧ Untripped second := by
  unfold Untripped at untripped
  rw [verdicts_append] at untripped
  exact ⟨fun v member => untripped v (List.mem_append_left _ member),
    fun v member => untripped v (List.mem_append_right _ member)⟩

theorem violate_tripped {env : Env} {cfg : Cfg} {st : St} {rule : Rule} {detail : Str} {later : Trace}
    (alive : st.killed = false)
    (trips : ∀ v : Verdict, v.rule = rule → v.detail = detail → Tripped v) :
    ¬ Untripped (fromClient (violate env cfg st rule detail).2 ++ later) := by
  intro untripped
  rw [violate_alive env cfg alive] at untripped
  exact untripped (verdictOf env cfg st rule detail) (by simp [fromClient,verdicts])
    (trips _ rfl rfl)

theorem fromClient_append (first second : List Call) :
    fromClient (first ++ second) = fromClient first ++ fromClient second := List.map_append

section Plain
variable (env : Env) (cfg : Cfg) {stream : Bytes} {stop : Nat}

theorem plainEngine_none (nothing : headerBlockEnd stream 0 = none) :
    plainEngine env cfg stream = (holding env cfg stream,[]) := by
  simp only [plainEngine,nothing]

theorem plainEngine_bare (found : headerBlockEnd stream 0 = some stop) (bare : hasBareLf stream stop = true) :
    plainEngine env cfg stream =
      violate env cfg (holding env cfg stream) .protocol (str "bare-lf-in-handshake") := by
  simp only [plainEngine,found,bare,if_true]

theorem plainEngine_clean (found : headerBlockEnd stream 0 = some stop)
    (clean : hasBareLf stream stop = false) :
    plainEngine env cfg stream = classify env cfg (holding env cfg stream) stop := by
  simp only [plainEngine,found,clean,Bool.false_eq_true,if_false]

theorem take_more (found : headerBlockEnd stream 0 = some stop) (more : Bytes) :
    (stream ++ more).take stop = stream.take stop ∧ (stream ++ more).drop stop = stream.drop stop ++ more := by
  have bounds := blockEnd_bounds found
  have inside : stop ≤ stream.length := by simpa using bounds.2
  exact ⟨List.take_append_of_le_length inside,List.drop_append_of_le_length inside⟩

theorem bare_more (found : headerBlockEnd stream 0 = some stop) (more : Bytes) :
    hasBareLf (stream ++ more) stop = hasBareLf stream stop := by
  rw [hasBareLf,(take_more found more).1,hasBareLf]

inductive PlainCase (stream : Bytes) (stop : Nat) : Prop
  | bare (refused : hasBareLf stream stop = true)
  | upgrades (clean : hasBareLf stream stop = false)
      (asks : upgradeTest (Text.toString (stream.take stop)) = true)
  | passes (clean : hasBareLf stream stop = false)
      (other : upgradeTest (Text.toString (stream.take stop)) = false)

theorem plainCase (stream : Bytes) (stop : Nat) : PlainCase stream stop := by
  cases bare : hasBareLf stream stop with
  | true => exact .bare bare
  | false =>
    cases asks : upgradeTest (Text.toString (stream.take stop)) with
    | true => exact .upgrades bare asks
    | false => exact .passes bare asks

theorem plainEngine_upgrades (found : headerBlockEnd stream 0 = some stop)
    (clean : hasBareLf stream stop = false)
    (asks : upgradeTest (Text.toString (stream.take stop)) = true) :
    plainEngine env cfg stream = ((pump env cfg (upgraded (holding env cfg stream) stop)).1,
      .send (fromString (Text.toString (stream.take stop))) {}::
        (pump env cfg (upgraded (holding env cfg stream) stop)).2) := by
  rw [plainEngine_clean env cfg found clean]
  exact classify_ws env cfg asks

theorem plainEngine_passes (found : headerBlockEnd stream 0 = some stop)
    (clean : hasBareLf stream stop = false)
    (other : upgradeTest (Text.toString (stream.take stop)) = false) :
    plainEngine env cfg stream = (passing (holding env cfg stream),if stream.drop stop ≠ [] then
        [.send (fromString (Text.toString (stream.take stop))) {},.send (stream.drop stop) {}]
      else [.send (fromString (Text.toString (stream.take stop))) {}]) := by
  rw [plainEngine_clean env cfg found clean]
  exact classify_plain env cfg other

theorem holding_extends (found : headerBlockEnd stream 0 = some stop) (more : Bytes) :
    Extends more (upgraded (holding env cfg stream) stop) (upgraded (holding env cfg (stream ++ more)) stop) :=
  ⟨(take_more found more).2,rfl,rfl,rfl,rfl,rfl,rfl⟩

theorem plainEngine_killed (killed : (plainEngine env cfg stream).1.killed = true) (more : Bytes) :
    (plainEngine env cfg (stream ++ more)).1.killed = true ∧
      (plainEngine env cfg (stream ++ more)).2 = (plainEngine env cfg stream).2 := by
  cases found : headerBlockEnd stream 0 with
  | none =>
    rw [plainEngine_none env cfg found] at killed
    simp [holding,filter] at killed
  | some stop =>
    have found' : headerBlockEnd (stream ++ more) 0 = some stop := blockEnd_append found more
    have same := bare_more found more
    obtain ⟨head,_⟩ := take_more found more
    cases plainCase stream stop with
    | bare refused =>
      have live (stream : Bytes) : (holding env cfg stream).killed = false := rfl
      rw [plainEngine_bare env cfg found refused,plainEngine_bare env cfg found' (same.trans refused),
        violate_alive env cfg (live _),violate_alive env cfg (live _)]
      exact ⟨rfl,rfl⟩
    | upgrades clean asks =>
      rw [plainEngine_upgrades env cfg found clean asks] at killed ⊢
      rw [plainEngine_upgrades env cfg found' (same.trans clean) (head ▸ asks),head]
      rcases pump_more env cfg (holding_extends env cfg found more) with ⟨_,dead,calls⟩ | ⟨alive,_⟩
      · exact ⟨dead,by rw [calls]⟩
      · simp [alive] at killed
    | passes clean other =>
      rw [plainEngine_passes env cfg found clean other] at killed
      simp [passing,holding,filter] at killed

theorem plainEngine_passing (mode : (plainEngine env cfg stream).1.mode = .plain) (more : Bytes)
    (options : Options) :
    (plainEngine env cfg (stream ++ more)).1.mode = .plain ∧
      observe (fromClient ((plainEngine env cfg stream).2 ++ [.send more options])) =
        observe (fromClient (plainEngine env cfg (stream ++ more)).2) := by
  cases found : headerBlockEnd stream 0 with
  | none =>
    rw [plainEngine_none env cfg found] at mode
    simp [holding,filter] at mode
  | some stop =>
    have found' : headerBlockEnd (stream ++ more) 0 = some stop := blockEnd_append found more
    have same := bare_more found more
    obtain ⟨head,rest⟩ := take_more found more
    cases plainCase stream stop with
    | bare refused =>
      have live : (holding env cfg stream).killed = false := rfl
      rw [plainEngine_bare env cfg found refused,violate_alive env cfg live] at mode
      simp [cut,holding,filter] at mode
    | upgrades clean asks =>
      rw [plainEngine_upgrades env cfg found clean asks] at mode
      have live : (upgraded (holding env cfg stream) stop).killed = false := rfl
      have ws := (pump_advances env cfg live).mode
      exact absurd (mode.symm.trans ws) (by simp [upgraded])
    | passes clean other =>
      rw [plainEngine_passes env cfg found clean other,
        plainEngine_passes env cfg found' (same.trans clean) (head ▸ other),head,rest]
      refine ⟨rfl,?_⟩
      by_cases none : stream.drop stop = []
      · by_cases empty : more = []
        · simp [none,empty,observe,fromClient,toUpstream,upstreamBytes,toClient,clientBytes,verdicts]
        · simp [none,empty,observe,fromClient,toUpstream,upstreamBytes,toClient,clientBytes,verdicts]
      · simp [none,observe,fromClient,toUpstream,upstreamBytes,toClient,clientBytes,verdicts]

theorem plainEngine_upgraded (mode : (plainEngine env cfg stream).1.mode = .ws)
    (alive : (plainEngine env cfg stream).1.killed = false) (more : Bytes) :
    (plainEngine env cfg (stream ++ more)).1.mode = .ws ∧
      ∃ mid, Extends more (plainEngine env cfg stream).1 mid ∧ plainEngine env cfg (stream ++ more) =
        ((pump env cfg mid).1,(plainEngine env cfg stream).2 ++ (pump env cfg mid).2) := by
  cases found : headerBlockEnd stream 0 with
  | none =>
    rw [plainEngine_none env cfg found] at mode
    simp [holding,filter] at mode
  | some stop =>
    have found' : headerBlockEnd (stream ++ more) 0 = some stop := blockEnd_append found more
    have same := bare_more found more
    obtain ⟨head,_⟩ := take_more found more
    cases plainCase stream stop with
    | bare refused =>
      have live : (holding env cfg stream).killed = false := rfl
      rw [plainEngine_bare env cfg found refused,violate_alive env cfg live] at alive
      simp [cut] at alive
    | upgrades clean asks =>
      rw [plainEngine_upgrades env cfg found clean asks] at alive ⊢
      rw [plainEngine_upgrades env cfg found' (same.trans clean) (head ▸ asks),head]
      have live : (upgraded (holding env cfg (stream ++ more)) stop).killed = false := rfl
      refine ⟨(pump_advances env cfg live).mode,?_⟩
      rcases pump_more env cfg (holding_extends env cfg found more) with ⟨dead,_⟩ | ⟨_,mid,longer,rest⟩
      · simp [dead] at alive
      · exact ⟨mid,longer,by rw [rest]; rfl⟩
    | passes clean other =>
      rw [plainEngine_passes env cfg found clean other] at mode
      simp [passing] at mode

end Plain

/-- How a session on some segmentation agrees with the plain engine on the bytes so far. -/
inductive Refines (env : Env) (cfg : Cfg) (stream : Bytes) (st : St) (trace : Trace) : Prop
  | sniffing (sniffs : Sniffing st stream) (lim : st.lim = (filter env cfg).lim)
      (silent : observe trace = observe [])
  | cut (killed : st.killed = true) (plain : (plainEngine env cfg stream).1.killed = true)
      (same : observe trace = observe (fromClient (plainEngine env cfg stream).2))
  | passing (alive : st.killed = false) (mode : st.mode = .plain)
      (plain : (plainEngine env cfg stream).1.mode = .plain)
      (same : observe trace = observe (fromClient (plainEngine env cfg stream).2))
  | upgraded (alive : st.killed = false) (mode : st.mode = .ws) (waiting : Waiting cfg st)
      (plain : (plainEngine env cfg stream).1.mode = .ws)
      (agrees : Extends [] (joined st) (plainEngine env cfg stream).1)
      (same : observe trace = observe (fromClient (plainEngine env cfg stream).2))

theorem Refines.observed {env : Env} {cfg : Cfg} {stream : Bytes} {st : St} {trace : Trace}
    (refines : Refines env cfg stream st trace) :
    observe trace = observe (fromClient (plainEngine env cfg stream).2) := by
  cases refines with
  | sniffing sniffs _ silent =>
    rw [plainEngine_none env cfg sniffs.nothing]
    exact silent
  | cut _ _ same => exact same
  | passing _ _ _ same => exact same
  | upgraded _ _ _ _ _ same => exact same

section Steps
variable {env : Env} {cfg : Cfg} {st : St} {stream : Bytes} {trace : Trace}

theorem Extends.rejoin {a b : St} (same : Extends [] a b) (nothing : Joined a) : Extends [] (joined a) b := by
  refine ⟨?_,same.pending,same.msgParts,same.msgLen,same.inMsg,same.lim,same.killed⟩
  simp only [joined,nothing.1,List.flatten_nil,List.append_nil]
  simpa using same.acc

theorem finish_observed (flags : Flags) (done : St × List Call × Bool) (earlier : Trace) :
    observe (earlier ++ fromClient (finish flags done).2) = observe (earlier ++ fromClient done.2.1) := by
  unfold finish
  split_ifs
  · rw [fromClient_append,← List.append_assoc,observe_propagate]
  · rfl

theorem Refines.finish {done : St × List Call × Bool}
    (refines : Refines env cfg stream done.1 (trace ++ fromClient done.2.1)) (flags : Flags) :
    Refines env cfg stream (finish flags done).1 (trace ++ fromClient (finish flags done).2) := by
  have observed := finish_observed flags done trace
  cases refines with
  | sniffing sniffs lim silent => exact .sniffing sniffs lim (observed.trans silent)
  | cut killed plain same => exact .cut killed plain (observed.trans same)
  | passing alive mode plain same => exact .passing alive mode plain (observed.trans same)
  | upgraded alive mode waiting plain agrees same =>
    exact .upgraded alive mode waiting plain agrees (observed.trans same)

theorem untripped_finish {flags : Flags} {done : St × List Call × Bool}
    (untripped : Untripped (fromClient (finish flags done).2)) : Untripped (fromClient done.2.1) := by
  unfold finish at untripped
  split_ifs at untripped
  · rw [fromClient_append] at untripped
    exact untripped.append.1
  · exact untripped

theorem classify_refines {ready : St} {stop : Nat} (alive : ready.killed = false) (hs : ready.hs = stream)
    (idle : Idle ready) (lim : ready.lim = (filter env cfg).lim)
    (found : headerBlockEnd stream 0 = some stop) (clean : hasBareLf stream stop = false)
    (silent : observe trace = observe []) :
    Refines env cfg stream (classify env cfg ready stop).1
      (trace ++ fromClient (classify env cfg ready stop).2) := by
  cases asks : upgradeTest (Text.toString (stream.take stop)) with
  | false =>
    have plain := plainEngine_passes env cfg found clean asks
    rw [← hs] at asks
    rw [classify_plain env cfg asks]
    refine .passing alive rfl (by rw [plain]; rfl) ?_
    rw [plain,observe_append silent,hs]
    rfl
  | true =>
    have plain := plainEngine_upgrades env cfg found clean asks
    have longer : Extends [] (upgraded ready stop) (upgraded (holding env cfg stream) stop) := by
      refine ⟨?_,idle.pending.symm,idle.msgParts.symm,idle.msgLen.symm,idle.inMsg.symm,lim.symm,alive.symm⟩
      simp [upgraded,holding,hs]
    obtain ⟨calls,killed,agrees⟩ := pump_alike env cfg longer
    have live : (upgraded ready stop).killed = false := alive
    have joins : Joined (upgraded ready stop) := ⟨idle.chunks,idle.pendingLen⟩
    rw [← hs] at asks
    rw [classify_ws env cfg asks]
    have same : observe (trace ++ fromClient (.send (fromString (Text.toString (ready.hs.take stop))) {}::
        (pump env cfg (upgraded ready stop)).2)) = observe (fromClient (plainEngine env cfg stream).2) := by
      rw [plain,observe_append silent,hs,calls]
      rfl
    cases dead : (pump env cfg (upgraded ready stop)).1.killed with
    | true => exact .cut dead (by rw [plain]; exact killed.trans dead) same
    | false =>
      have mode := (pump_advances env cfg live).mode
      have plainLive : (upgraded (holding env cfg stream) stop).killed = false := rfl
      have plainMode := (pump_advances env cfg plainLive).mode
      refine .upgraded dead mode (pump_waiting env cfg _ joins dead) (by rw [plain]; exact plainMode) ?_ same
      rw [plain]
      exact (agrees dead).rejoin (pump_joined env cfg _ joins)

theorem handshake_refines (sniffs : Sniffing st stream) (lim : st.lim = (filter env cfg).lim)
    (silent : observe trace = observe []) (data : Bytes)
    (untripped : Untripped (fromClient (handshake env cfg st data).2.1)) :
    Refines env cfg (stream ++ data) (handshake env cfg st data).1
      (trace ++ fromClient (handshake env cfg st data).2.1) := by
  have scan : headerBlockEnd (st.hs ++ data) (st.hsScanned - 2) = headerBlockEnd (stream ++ data) 0 := by
    rw [sniffs.whole,sniffs.all]
    exact headerBlockEnd_resume sniffs.nothing data
  have hs : (scanned st data).hs = stream ++ data := congrArg (· ++ data) sniffs.whole
  unfold handshake at untripped ⊢
  split_ifs at untripped ⊢ with many large
  · rw [← List.append_nil (fromClient _)] at untripped
    exact absurd untripped (violate_tripped sniffs.alive fun v rule detail => Or.inr (Or.inl ⟨rule,detail⟩))
  · rw [← List.append_nil (fromClient _)] at untripped
    exact absurd untripped (violate_tripped sniffs.alive fun v rule _ => Or.inr (Or.inr rule))
  · cases found : headerBlockEnd (stream ++ data) 0 with
    | none =>
      simp only [scan.trans found]
      refine .sniffing ⟨sniffs.mode,sniffs.alive,hs,?_,found,sniffs.idle.same rfl⟩ lim ?_
      · simp only [scanned,sniffs.whole]
      · rw [fromClient,List.map_nil,List.append_nil]
        exact silent
    | some stop =>
      simp only [scan.trans found]
      rw [sniffs.whole]
      cases bare : hasBareLf (stream ++ data) stop with
      | true =>
        have live : (scanned st data).killed = false := sniffs.alive
        have plain := plainEngine_bare env cfg found bare
        rw [violate_alive env cfg (show (holding env cfg (stream ++ data)).killed = false from rfl)] at plain
        simp only [if_true]
        rw [violate_alive env cfg live]
        refine .cut rfl (by rw [plain]; rfl) ?_
        rw [plain,observe_append silent]
        simp only [verdictOf,scanned,holding,lim]
        rfl
      | false =>
        simp only [Bool.false_eq_true,if_false]
        exact classify_refines (scanned_alive sniffs.alive data) hs
          (sniffs.idle.same rfl) lim found bare silent

theorem receive_refines (alive : st.killed = false) (mode : st.mode = .ws) (waiting : Waiting cfg st)
    (plain : (plainEngine env cfg stream).1.mode = .ws)
    (agrees : Extends [] (joined st) (plainEngine env cfg stream).1)
    (same : observe trace = observe (fromClient (plainEngine env cfg stream).2)) (data : Bytes)
    (untripped : Untripped (fromClient (receive env cfg st data).2.1)) :
    Refines env cfg (stream ++ data) (receive env cfg st data).1
      (trace ++ fromClient (receive env cfg st data).2.1) := by
  obtain ⟨plainMode,mid,longer,rest⟩ := plainEngine_upgraded env cfg plain (agrees.killed.trans alive) data
  have feeds : Extends [] (joined (buffered st data)) mid := by
    refine ⟨?_,longer.pending.trans agrees.pending,longer.msgParts.trans agrees.msgParts,
      longer.msgLen.trans agrees.msgLen,longer.inMsg.trans agrees.inMsg,longer.lim.trans agrees.lim,
      longer.killed.trans agrees.killed⟩
    rw [longer.acc,agrees.acc]
    simp [joined,buffered,msgRead]
  have live : (joined (buffered st data)).killed = false := alive
  have midAlive : mid.killed = false := feeds.killed.trans live
  unfold receive at untripped ⊢
  split_ifs at untripped ⊢ with many few
  · rw [← List.append_nil (fromClient _)] at untripped
    exact absurd untripped (violate_tripped (msgRead_alive alive)
      fun v rule detail => Or.inl ⟨rule,detail⟩)
  · have still : Waiting cfg (buffered st data) := by
      refine ⟨waiting.header,?_,few⟩
      simp [buffered,msgRead,waiting.length]
    have waits : frameHeader cfg mid.inMsg mid.msgLen mid.acc = .wait st.need := by
      rw [feeds.inMsg,feeds.msgLen,feeds.acc,List.append_nil]
      exact still.still
    rw [pump_wait midAlive waits] at rest
    refine .upgraded alive mode still plainMode ?_ ?_
    · rw [rest]
      exact ⟨feeds.acc,feeds.pending,feeds.msgParts,feeds.msgLen,feeds.inMsg,feeds.lim,feeds.killed⟩
    · rw [rest,fromClient,List.map_nil,List.append_nil,List.append_nil]
      exact same
  · obtain ⟨calls,killed,left⟩ := pump_alike env cfg feeds
    have joins : Joined (joined (buffered st data)) := ⟨rfl,rfl⟩
    have observed : observe (trace ++ fromClient (pump env cfg (joined (buffered st data))).2) =
        observe (fromClient (plainEngine env cfg (stream ++ data)).2) := by
      rw [rest,fromClient_append,calls]
      exact observe_append same _
    cases dead : (pump env cfg (joined (buffered st data))).1.killed with
    | true => exact .cut dead (by rw [rest]; exact killed.trans dead) observed
    | false =>
      have pumped := (pump_advances env cfg live).mode.trans mode
      refine .upgraded dead pumped (pump_waiting env cfg _ joins dead) plainMode ?_ observed
      rw [rest]
      exact (left dead).rejoin (pump_joined env cfg _ joins)

theorem Refines.step (refines : Refines env cfg stream st trace) (unbanned : cfg.banFile = []) {data : Bytes}
    (filled : data ≠ []) (flags : Flags)
    (untripped : Untripped (fromClient (upstream env cfg st data flags).2)) :
    Refines env cfg (stream ++ data) (upstream env cfg st data flags).1
      (trace ++ fromClient (upstream env cfg st data flags).2) := by
  cases refines with
  | sniffing sniffs lim silent =>
    have reads : read env cfg st data = handshake env cfg st data := by
      rw [read,if_neg filled,if_pos sniffs.mode]
    rw [upstream_unbanned unbanned sniffs.alive,if_neg (by simp [sniffs.mode]),reads] at untripped ⊢
    have next := handshake_refines sniffs lim silent data (untripped_finish untripped)
    exact next.finish flags
  | cut killed plain same =>
    obtain ⟨still,calls⟩ := plainEngine_killed env cfg plain data
    rw [upstream_killed env cfg killed]
    refine .cut killed still ?_
    rw [calls,fromClient,List.map_nil,List.append_nil]
    exact same
  | passing alive mode plain same =>
    obtain ⟨still,observed⟩ := plainEngine_passing env cfg plain data flags.options
    rw [upstream_unbanned unbanned alive,if_pos mode]
    refine .passing alive mode still ?_
    rw [← observed,fromClient_append]
    exact observe_append same _
  | upgraded alive mode waiting plain agrees same =>
    have reads : read env cfg st data = receive env cfg st data := by
      rw [read,if_neg filled,if_neg (by simp [mode])]
    rw [upstream_unbanned unbanned alive,if_neg (by simp [mode]),reads] at untripped ⊢
    have next := receive_refines alive mode waiting plain agrees same data (untripped_finish untripped)
    exact next.finish flags

end Steps

/-- A session that meets no ban file and trips no cap is observed as the plain engine is
on all the bytes it has received. -/
theorem session_refines (env : Env) (unbanned : (readCfg env).banFile = []) (callbacks : List Callback)
    (segments : ∀ c ∈ callbacks, IsSegment c) (untripped : Untripped (session env callbacks).2) :
    Refines env (readCfg env) (clientStream callbacks) (session env callbacks).1 (session env callbacks).2 := by
  induction callbacks using List.reverseRecOn with
  | nil => exact .sniffing (sniffing_filter env _) rfl rfl
  | append_singleton before c ih =>
    have stream : clientStream (before ++ [c]) = clientStream before ++ c.sent := clientStream_concat before c
    rw [session_concat] at untripped ⊢
    obtain ⟨earlier,now⟩ := untripped.append
    have refines := ih (fun c member => segments c (by simp [member])) earlier
    have segment := segments c (by simp)
    rw [stream]
    cases c with
    | upstream data flags => exact refines.step unbanned segment flags now
    | downstream data flags => exact segment.elim

/-- Two ways of cutting one stream into reads that trip no cap send the same bytes each
way and make the same verdicts, those of the plain engine on the whole stream. -/
theorem segmentation (env : Env) (unbanned : (readCfg env).banFile = []) (first second : List Callback)
    (segments : ∀ c ∈ first ++ second, IsSegment c) (same : clientStream first = clientStream second)
    (untripped : Untripped (session env first).2 ∧ Untripped (session env second).2) :
    observe (session env first).2 = observe (session env second).2 ∧
      observe (session env first).2 =
        observe (fromClient (plainEngine env (readCfg env) (clientStream first)).2) := by
  have one := session_refines env unbanned first (fun c member => segments c (by simp [member])) untripped.1
  have other := session_refines env unbanned second (fun c member => segments c (by simp [member])) untripped.2
  have plain := other.observed
  rw [← same] at plain
  exact ⟨one.observed.trans plain.symm,one.observed⟩

theorem segmentation_message :
    observe (session (listener "") [sends upgradeRequest,sends ((message "[\"CLOSE\",\"a\"]").take 1),
        sends ((message "[\"CLOSE\",\"a\"]").drop 1)]).2 =
      observe (session (listener "") [sends (upgradeRequest ++ message "[\"CLOSE\",\"a\"]")]).2 ∧
    observe (session (listener "") [sends upgradeRequest,sends ((message "[\"CLOSE\",\"a\"]").take 1),
        sends ((message "[\"CLOSE\",\"a\"]").drop 1)]).2 =
      observe (fromClient (plainEngine (listener "") (readCfg (listener ""))
        (clientStream [sends upgradeRequest,sends ((message "[\"CLOSE\",\"a\"]").take 1),
          sends ((message "[\"CLOSE\",\"a\"]").drop 1)])).2) :=
  segmentation (listener "") (by decide +kernel) _ _ (by decide +kernel) (by decide +kernel) (by decide +kernel)

end FipsShield.Engine
