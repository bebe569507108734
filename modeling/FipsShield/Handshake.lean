import FipsShield.Containment
import FipsShield.Scan

/-! Runs up to the end of the handshake: what a session has buffered while it
sniffs, the head it forwards, and what is sent when it is cut before that. -/
namespace FipsShield.Engine
open Text Head

structure Idle (st : St) : Prop where
  chunks : st.chunks = []
  pendingLen : st.pendingLen = 0
  need : st.need = 2
  msgReads : st.msgReads = 0
  pending : st.pending = []
  msgParts : st.msgParts = []
  msgLen : st.msgLen = 0
  inMsg : st.inMsg = false

/-- A session that has buffered this stream and not found the end of its head. -/
structure Sniffing (st : St) (stream : Bytes) : Prop where
  mode : st.mode = .handshake
  alive : st.killed = false
  whole : st.hs = stream
  all : st.hsScanned = stream.length
  nothing : headerBlockEnd stream 0 = none
  idle : Idle st

theorem sniffing_filter (env : Env) (cfg : Cfg) : Sniffing (filter env cfg) [] :=
  ⟨rfl,rfl,rfl,rfl,rfl,⟨rfl,rfl,rfl,rfl,rfl,rfl,rfl,rfl⟩⟩

theorem Idle.same {st other : St} (idle : Idle st)
    (same : (other.chunks,other.pendingLen,other.need,other.msgReads,other.pending,other.msgParts,
        other.msgLen,other.inMsg) =
      (st.chunks,st.pendingLen,st.need,st.msgReads,st.pending,st.msgParts,st.msgLen,st.inMsg)) :
    Idle other := by
  simp only [Prod.mk.injEq] at same
  obtain ⟨chunks,pendingLen,need,msgReads,pending,msgParts,msgLen,inMsg⟩ := same
  exact ⟨chunks.trans idle.chunks,pendingLen.trans idle.pendingLen,need.trans idle.need,
    msgReads.trans idle.msgReads,pending.trans idle.pending,msgParts.trans idle.msgParts,
    msgLen.trans idle.msgLen,inMsg.trans idle.inMsg⟩

theorem Sniffing.clocked {st : St} {stream : Bytes} (sniffing : Sniffing st stream) (time : Number)
    (ticks : Nat) : Sniffing (st.clocked time ticks) stream :=
  ⟨sniffing.mode,sniffing.alive,sniffing.whole,sniffing.all,sniffing.nothing,sniffing.idle.same rfl⟩

/-- The callbacks that end a session while it sniffs. -/
def CutsHandshake (env : Env) (cfg : Cfg) (st : St) : Callback → Prop
  | .upstream data _ => st.killed = false ∧ st.mode = .handshake ∧
      (RefusesPeer env cfg st ∨ (data ≠ [] ∧ RefusesHead cfg st data))
  | .downstream _ _ => False

section Steps
variable (env : Env) (cfg : Cfg) {st : St} {stream : Bytes}

theorem upstreamBytes_closing (rule : Core.Rule) (v : Core.Verdict) :
    toUpstream ((Call.verdict v::closing rule).map (Prod.mk .upstream)) =
      framed opClose (closePayload 1008 rule.text) true := by
  rw [closing_eq]
  simp [toUpstream,upstreamBytes]

theorem propagate_silent (flags : Flags) (st : St) :
    toUpstream ((propagate flags st).map (Prod.mk .upstream)) = [] ∧
      inspections ((propagate flags st).map (Prod.mk .upstream)) = [] := by
  unfold propagate
  split_ifs <;> exact ⟨rfl,rfl⟩

/-- A callback on a sniffing session cuts it, leaves it sniffing with nothing sent
upstream, or completes the head. -/
theorem respond_sniffing (sniffing : Sniffing st stream) (c : Callback) :
    (CutsHandshake env cfg st c ∧ c.direction = .upstream ∧ ∃ seen rule detail,
        seen.killed = false ∧ seen.mode = .handshake ∧
        respond env cfg st c = violate env cfg seen rule detail) ∨
      (¬ CutsHandshake env cfg st c ∧ Sniffing (respond env cfg st c).1 (stream ++ c.sent) ∧
        toUpstream ((respond env cfg st c).2.map (Prod.mk c.direction)) = [] ∧
        inspections ((respond env cfg st c).2.map (Prod.mk c.direction)) = []) ∨
      (¬ CutsHandshake env cfg st c ∧ ∃ data flags time ticks stop, c = .upstream data flags ∧
        headerBlockEnd (stream ++ data) 0 = some stop ∧ hasBareLf (stream ++ data) stop = false ∧
        respond env cfg st c = finish flags
          ((classify env cfg (scanned (st.clocked time ticks) data) stop).1,
            (classify env cfg (scanned (st.clocked time ticks) data) stop).2,true)) := by
  have other : st.mode ≠ .plain := by simp [sniffing.mode]
  cases c with
  | downstream data flags =>
    refine Or.inr (Or.inl ⟨id,?_,?_⟩)
    · rw [respond_other env cfg other,Callback.sent,List.append_nil]
      exact sniffing
    · rw [respond_other env cfg other]
      exact ⟨rfl,rfl⟩
  | upstream data flags =>
    rcases upstream_cases env cfg sniffing.alive data flags with
      ⟨peer,_,time,ticks,rule,detail,cuts⟩ | ⟨plain,_⟩ | ⟨peer,_,time,ticks,reads⟩
    · exact Or.inl ⟨⟨sniffing.alive,sniffing.mode,Or.inl peer⟩,rfl,st.clocked time ticks,rule,detail,
        sniffing.alive,sniffing.mode,cuts⟩
    · exact absurd plain other
    · have started := sniffing.clocked time ticks
      have scan : headerBlockEnd ((st.clocked time ticks).hs ++ data) ((st.clocked time ticks).hsScanned - 2) =
          headerBlockEnd (stream ++ data) 0 := by
        rw [started.whole,started.all]
        exact headerBlockEnd_resume sniffing.nothing data
      change _ ∨ (_ ∧ Sniffing (upstream env cfg st data flags).1 (stream ++ data) ∧ _) ∨ _
      simp only [respond,reads]
      by_cases empty : data = []
      · refine Or.inr (Or.inl ⟨?_,?_,?_⟩)
        · intro cuts
          rcases cuts.2.2 with refused | read
          · exact peer refused
          · exact read.1 empty
        · simp only [read,finish,empty,List.append_nil]
          exact started
        · simp only [read,if_pos empty,finish,if_true,List.nil_append]
          exact propagate_silent flags _
      · have sniffs : read env cfg (st.clocked time ticks) data =
            handshake env cfg (st.clocked time ticks) data := by
          rw [read,if_neg empty,if_pos started.mode]
        rw [sniffs]
        rcases handshake_cases env cfg data with
          ⟨refused,seen,rule,detail,live,mode,_,cuts⟩ | ⟨kept,found,waits⟩ | ⟨kept,stop,found,clean,done⟩
        · rw [cuts]
          exact Or.inl ⟨⟨sniffing.alive,sniffing.mode,Or.inr ⟨empty,refused⟩⟩,rfl,seen,rule,detail,
            live.trans started.alive,mode.trans started.mode,rfl⟩
        · rw [waits]
          refine Or.inr (Or.inl ⟨?_,⟨started.mode,started.alive,?_,?_,scan.symm.trans found,
            started.idle.same rfl⟩,rfl,rfl⟩)
          · intro cuts
            exact cuts.2.2.elim peer fun read => kept read.2
          · exact congrArg (· ++ data) started.whole
          · simp only [finish,scanned]
            rw [started.whole]
        · rw [done]
          refine Or.inr (Or.inr ⟨?_,data,flags,time,ticks,stop,rfl,scan.symm.trans found,?_,rfl⟩)
          · intro cuts
            exact cuts.2.2.elim peer fun read => kept read.2
          · rw [← clean,started.whole]

theorem respond_mode (done : st.mode ≠ .handshake) (c : Callback) :
    (respond env cfg st c).1.mode = st.mode := by
  cases alive : st.killed with
  | true =>
    cases c with
    | upstream data flags => rw [respond,upstream_killed env cfg alive]
    | downstream data flags =>
      have dead : (latched st).killed = true := alive
      simp only [respond,downstream,violate,if_pos dead]
      split_ifs <;> rfl
  | false =>
    cases c with
    | upstream data flags =>
      rw [respond]
      rcases upstream_cases env cfg alive data flags with
        ⟨_,_,time,ticks,rule,detail,cuts⟩ | ⟨_,sends⟩ | ⟨_,other,time,ticks,reads⟩
      · rw [cuts]
        exact (violate_advances env cfg (clocked_alive alive time ticks) _ _).mode
      · rw [sends]
      · rw [reads,finish,read,if_neg (show (st.clocked time ticks).mode ≠ .handshake from done)]
        split_ifs
        · rfl
        · rfl
        · exact (receive_advances env cfg (clocked_alive alive time ticks) data).mode
        · exact (receive_advances env cfg (clocked_alive alive time ticks) data).mode
    | downstream data flags =>
      simp only [respond,downstream]
      split_ifs
      · exact (violate_advances env cfg (latched_alive alive) _ _).mode
      · rfl
      · rfl

end Steps

/-- A session that has taken the mode its head asks for and forwarded the head first. -/
structure Accepted (st : St) (stream sent head : Bytes) : Prop where
  cut : CutHead stream head
  mode : st.mode = if upgradeTest (Text.toString head) then .ws else .plain
  forwarded : fromString (Text.toString head) <+: sent

/-- How far a session has come, by what the client and the upstream have been sent. -/
inductive Phase (st : St) (stream sent : Bytes) : Prop where
  | sniffing (sniffs : Sniffing st stream) (nothing : sent = [])
  | refused (killed : st.killed = true) (mode : st.mode = .handshake) (rule : Core.Rule)
      (closed : sent = framed opClose (closePayload 1008 rule.text) true)
  | accepted (head : Bytes) (accepts : Accepted st stream sent head)

theorem Accepted.mode_ne {st : St} {stream sent head : Bytes} (accepts : Accepted st stream sent head) :
    st.mode ≠ .handshake := by
  rw [accepts.mode]
  split_ifs <;> simp

theorem classify_accepts (env : Env) (cfg : Cfg) {st : St} (alive : st.killed = false) (stop : Nat) :
    (classify env cfg st stop).1.mode =
        (if upgradeTest (Text.toString (st.hs.take stop)) then .ws else .plain) ∧
      fromString (Text.toString (st.hs.take stop)) <+:
        toUpstream ((classify env cfg st stop).2.map (Prod.mk .upstream)) := by
  simp only [classify,Buffer.slice,List.drop_zero]
  split_ifs
  · have pumped := pump_advances env cfg (show (upgraded st stop).killed = false from alive)
    exact ⟨pumped.mode,by simp [toUpstream,upstreamBytes]⟩
  · exact ⟨rfl,by simp [toUpstream,upstreamBytes]⟩
  · exact ⟨rfl,by simp [toUpstream,upstreamBytes]⟩

theorem session_phase (env : Env) (callbacks : List Callback) :
    Phase (session env callbacks).1 (clientStream callbacks) (toUpstream (session env callbacks).2) := by
  refine session_rule (P := fun callbacks st trace => Phase st (clientStream callbacks) (toUpstream trace))
    (.sniffing (sniffing_filter env (readCfg env)) rfl) ?_ callbacks
  intro before st trace c phase
  have stream : clientStream (before ++ [c]) = clientStream before ++ c.sent := clientStream_concat before c
  rw [stream,toUpstream_append]
  cases phase with
  | sniffing sniffs nothing =>
    rw [nothing,List.nil_append]
    rcases respond_sniffing env (readCfg env) sniffs c with
      ⟨_,up,seen,rule,detail,alive,mode,cuts⟩ | ⟨_,still,silent,_⟩ | ⟨_,data,flags,time,ticks,stop,rfl,found,clean,done⟩
    · rw [cuts,up,violate_alive env _ alive]
      exact .refused rfl mode rule (upstreamBytes_closing rule _)
    · exact .sniffing still silent
    · have started := sniffs.clocked time ticks
      have hs : (scanned (st.clocked time ticks) data).hs = clientStream before ++ data :=
        congrArg (· ++ data) started.whole
      obtain ⟨mode,first⟩ := classify_accepts env (readCfg env)
        (scanned_alive started.alive data) stop
      rw [hs] at mode first
      rw [done]
      refine .accepted _ ⟨⟨stop,found,clean,rfl⟩,mode,first.trans ?_⟩
      simp only [finish,if_true,List.map_append,toUpstream_append]
      exact List.prefix_append _ _
  | refused killed mode rule closed =>
    have settled : Settled st := fun _ plain => by simp [mode] at plain
    rw [respond_killed env (readCfg env) killed settled]
    refine .refused killed mode rule ?_
    rw [closed]
    cases c <;> exact List.append_nil _
  | accepted head accepts =>
    refine .accepted head ⟨accepts.cut.append _,?_,accepts.forwarded.trans (List.prefix_append _ _)⟩
    rw [respond_mode env (readCfg env) accepts.mode_ne c,accepts.mode]

def Refused (st : St) : Prop := st.killed = true ∧ st.mode = .handshake

theorem refused_step {env : Env} {cfg : Cfg} {st : St} {stream sent : Bytes}
    (phase : Phase st stream sent) (c : Callback) :
    Refused (respond env cfg st c).1 ↔ Refused st ∨ CutsHandshake env cfg st c := by
  cases phase with
  | sniffing sniffs _ =>
    have live : ¬ Refused st := fun refused => by simp [Refused,sniffs.alive] at refused
    rcases respond_sniffing env cfg sniffs c with
      ⟨hits,_,seen,rule,detail,alive,mode,cuts⟩ | ⟨misses,still,_⟩ | ⟨misses,data,flags,time,ticks,stop,_,_,_,done⟩
    · rw [cuts,violate_alive env cfg alive]
      exact iff_of_true ⟨rfl,mode⟩ (Or.inr hits)
    · exact iff_of_false (fun refused => by simp [Refused,still.alive] at refused) (by tauto)
    · have started := sniffs.clocked time ticks
      obtain ⟨mode,_⟩ := classify_accepts env cfg
        (scanned_alive started.alive data) stop
      apply iff_of_false _ (by tauto)
      intro refused
      rw [done] at refused
      have sniffing := mode.symm.trans refused.2
      split_ifs at sniffing
  | refused killed mode rule _ =>
    have settled : Settled st := fun _ plain => by simp [mode] at plain
    rw [respond_killed env cfg killed settled]
    exact iff_of_true ⟨killed,mode⟩ (Or.inl ⟨killed,mode⟩)
  | accepted head accepts =>
    have kept := respond_mode env cfg accepts.mode_ne c
    apply iff_of_false
    · intro refused
      exact accepts.mode_ne (kept.symm.trans refused.2)
    · intro either
      rcases either with refused | hits
      · exact accepts.mode_ne refused.2
      · cases c with
        | upstream data flags => exact accepts.mode_ne hits.2.1
        | downstream data flags => exact hits

def HeadFirst (stream sent : Bytes) : Prop :=
  sent = [] ∨ ∃ head, CutHead stream head ∧ fromString (Text.toString head) <+: sent

private theorem closing_feed (rule : Core.Rule) :
    (0x0A : UInt8) ∉ framed opClose (closePayload 1008 rule.text) true := by
  cases rule <;> decide +kernel

theorem headFirst_refused {st : St} {stream sent : Bytes} (phase : Phase st stream sent) :
    HeadFirst stream sent ↔ ¬ Refused st := by
  cases phase with
  | sniffing sniffs nothing =>
    exact iff_of_true (Or.inl nothing) fun refused => by simp [Refused,sniffs.alive] at refused
  | refused killed mode rule closed =>
    apply iff_of_false _ (not_not_intro ⟨killed,mode⟩)
    intro first
    rcases first with nothing | ⟨head,cut,started⟩
    · simp [closed,framed] at nothing
    · have feed : (0x0A : UInt8) ∈ fromString (Text.toString head) := by
        rw [fromString_toString,ascii_mem_reencode 0x0A (by decide)]
        exact cut.feed
      exact closing_feed rule (closed ▸ started.subset feed)
  | accepted head accepts =>
    exact iff_of_true (Or.inr ⟨head,accepts.cut,accepts.forwarded⟩) fun refused =>
      accepts.mode_ne refused.2

/-- The bytes sent upstream are none or start with a complete head if and only if
no callback cuts the session while it sniffs. -/
theorem headFirst_iff (env : Env) (callbacks : List Callback) :
    HeadFirst (clientStream callbacks) (toUpstream (session env callbacks).2) ↔
      ∀ before c later, callbacks = before ++ c::later →
        ¬ CutsHandshake env (readCfg env) (session env before).1 c := by
  rw [headFirst_refused (session_phase env callbacks)]
  have reached : Refused (session env callbacks).1 ↔ ∃ before c later, callbacks = before ++ c::later ∧
      CutsHandshake env (readCfg env) (session env before).1 c :=
    Transducer.reached_iff (by simp [Refused,filter])
      (fun before c => refused_step (session_phase env before) c) callbacks
  rw [reached]
  constructor
  · intro never before c later same hits
    exact never ⟨before,c,later,same,hits⟩
  · intro spared found
    obtain ⟨before,c,later,same,hits⟩ := found
    exact spared before c later same hits

/-- A bare line feed in the request gets the upstream a Close frame instead of a head. -/
theorem close_without_head :
    (session (listener "") [sends (bytes "GET / HTTP/1.1\n\n")]).1.mode = .handshake ∧
      ¬ HeadFirst (clientStream [sends (bytes "GET / HTTP/1.1\n\n")])
        (toUpstream (session (listener "") [sends (bytes "GET / HTTP/1.1\n\n")]).2) := by
  refine ⟨by decide +kernel,?_⟩
  intro first
  rcases first with nothing | ⟨head,⟨stop,found,clean,_⟩,_⟩
  · have sent : toUpstream (session (listener "") [sends (bytes "GET / HTTP/1.1\n\n")]).2 ≠ [] := by
      decide +kernel
    exact sent nothing
  · have stops : headerBlockEnd (clientStream [sends (bytes "GET / HTTP/1.1\n\n")]) 0 = some 16 := by
      decide +kernel
    have bare : hasBareLf (clientStream [sends (bytes "GET / HTTP/1.1\n\n")]) 16 = true := by
      decide +kernel
    rw [Option.some.inj (stops.symm.trans found)] at bare
    simp [clean] at bare

end FipsShield.Engine
