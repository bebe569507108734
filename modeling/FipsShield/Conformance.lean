import FipsShield.Buffering
import FipsShield.Library.ClientFrames

/-! The grammar of what an upgraded session sends upstream: the loop refuses a header that
RFC 6455 forbids a client where it stands, so no frame before it is followed by it. -/
namespace FipsShield.Engine
open Text FipsShield.Core Frame.Header

/-! ## One header -/

theorem readUInt16BE_lt (b : Bytes) (i : Nat) : Buffer.readUInt16BE b i < 2 ^ 16 := by
  have high := (Buffer.byteAt b i).toNat_lt
  have low := (Buffer.byteAt b (i + 1)).toNat_lt
  unfold Buffer.readUInt16BE
  omega

theorem readUInt32BE_lt (b : Bytes) (i : Nat) : Buffer.readUInt32BE b i < 2 ^ 32 := by
  have high := readUInt16BE_lt b i
  have low := readUInt16BE_lt b (i + 2)
  unfold Buffer.readUInt32BE
  omega

theorem shortLength_lt (b : Bytes) : Frame.shortLength b < 128 := by
  rw [Frame.shortLength,UInt8.toNat_and]
  exact Nat.and_lt_two_pow _ (n := 7) (by decide)

/-- A length that is read and not refused. -/
theorem lengthField_reads {acc : Bytes} {off len : Nat} (read : Frame.extent acc = some (off,len))
    (sound : ∀ v, lengthField acc ≠ .refuse v) : lengthField acc = .extent off len ∧ len < 2 ^ 63 := by
  have short := shortLength_lt acc
  have two := readUInt16BE_lt acc 2
  have six := readUInt32BE_lt acc 6
  unfold Frame.extent at read
  simp only [lengthField] at sound ⊢
  split_ifs at read with tiny is126 few is127 few
  all_goals
    obtain ⟨rfl,rfl⟩ := Prod.mk.inj (Option.some.inj read)
  · rw [if_pos is126,if_neg few]
    exact ⟨rfl,by omega⟩
  · have small : Buffer.readUInt32BE acc 2 = 0 := by
      by_contra large
      exact sound _ (by rw [if_neg is126,if_pos is127,if_neg few,if_pos large])
    rw [if_neg is126,if_pos is127,if_neg few,if_neg (not_not_intro small),small]
    exact ⟨by simp,by omega⟩
  · rw [if_neg is126,if_neg is127]
    exact ⟨rfl,by omega⟩

/-- A header that is not refused is one a client may send. -/
theorem refused_allowed {cfg : Cfg} {inMsg fin : Bool} {msgLen op len : Nat}
    (passed : refused cfg inMsg msgLen fin op len = none) (small : len < 2 ^ 63) :
    Frame.Header.Allowed inMsg ⟨fin,0,op,true,len⟩ := by
  unfold refused at passed
  split_ifs at passed with control bad binary other text cont large
  · refine ⟨rfl,rfl,small,fun _ => ?_,fun data => absurd control (by simpa using data)⟩
    simpa using bad
  · refine ⟨rfl,rfl,small,fun above => absurd above control,fun _ => ?_⟩
    have kind : op = 1 ∨ op = 0 := by
      by_contra none
      exact other (not_or.mp none)
    rcases kind with rfl | rfl
    · cases inMsg with
      | true => simp [opText] at text
      | false => simp
    · cases inMsg with
      | true => simp
      | false => simp [opCont] at cont

theorem frameHeader_allowed {cfg : Cfg} {inMsg : Bool} {msgLen : Nat} {acc : Bytes} {h : Frame.Header}
    (sound : ∀ v, frameHeader cfg inMsg msgLen acc ≠ .refuse v) (read : Frame.readHeader acc = some h) :
    h.Allowed inMsg := by
  obtain ⟨⟨off,len⟩,ext,rfl⟩ := Option.map_eq_some_iff.mp read
  have filled := Frame.extent_bounds ext
  simp only [frameHeader,if_neg (show ¬ acc.length < 2 by omega)] at sound
  split_ifs at sound with reserved unmasked
  · exact absurd rfl (sound _)
  · exact absurd rfl (sound _)
  · obtain ⟨field,small⟩ := lengthField_reads ext (by
      intro v found
      exact sound v (by rw [found]))
    rw [field] at sound
    have passed : refused cfg inMsg msgLen (Buffer.byteAt acc 0 &&& 0x80 != 0) (Buffer.byteAt acc 0 &&& 0x0F).toNat len = none := by
      cases found : refused cfg inMsg msgLen (Buffer.byteAt acc 0 &&& 0x80 != 0) (Buffer.byteAt acc 0 &&& 0x0F).toNat len with
      | none => rfl
      | some v => exact absurd (by simp only [found]) (sound v)
    have masked : Frame.masked acc = true := by simpa [Frame.masked] using unmasked
    have zero : Buffer.byteAt acc 0 &&& 0x70 = 0 := by simpa using reserved
    rw [zero,masked]
    exact refused_allowed passed small

/-! ## The frames of a session -/

/-- The frames sent conform, and so do those held after them as long as the session lives. -/
structure Conforming (st : St) (sent : Bytes) : Prop where
  gone : Conforms false ((Frame.split sent).1.map Frame.header)
  held : st.killed = false → Conforms false ((Frame.split (sent ++ st.pending.flatten)).1.map Frame.header)

section Steps
variable {env : Env} {cfg : Cfg} {body sent : Bytes} {st : St} {log : List (Bytes × Bool)}

/-- A step that sends nothing, or all that is held. -/
def Sends (held : List Bytes) (done : St × List Call) : Prop :=
  (forwardedBy done.2 = [] ∧ (done.1.killed = false → done.1.pending = held)) ∨
    (forwardedBy done.2 = held.flatten ∧ done.1.pending = [])

theorem Sends.cut (alive : st.killed = false) (held : List Bytes) (rule : Rule) (detail : Str) :
    Sends held (violate env cfg st rule detail) := by
  rw [violate_alive env cfg alive]
  exact Or.inl ⟨(forwardedBy_closing _ rule).1,fun live => by simp [Engine.cut] at live⟩

theorem Sends.flush (st : St) : Sends st.pending (flush st) := Or.inr ⟨forwardedBy_flushCalls st.pending,rfl⟩

theorem Sends.hold (st : St) : Sends st.pending (st,[]) := Or.inl ⟨rfl,fun _ => rfl⟩

theorem Sends.inspected {held : List Bytes} {done : St × List Call} (sends : Sends held done) (message : Bytes)
    (accepted : Bool) : Sends held (done.1,.inspected message accepted::done.2) := sends

theorem complete_sends (alive : st.killed = false) : Sends st.pending (complete env cfg st) := by
  cases found : (police env cfg st.lim st.msgParts.flatten).1 with
  | none =>
    rw [complete_accepts env cfg alive found]
    exact (Sends.flush (policed env cfg st)).inspected _ true
  | some v =>
    rw [complete_rejects env cfg alive found]
    have live : (policed env cfg st).killed = false := alive
    have cuts : Sends st.pending (violate env cfg (policed env cfg st) v.rule v.detail) := Sends.cut live _ _ _
    rw [violate_alive env cfg live] at cuts
    exact cuts.inspected _ false

theorem dataFrame_sends (alive : st.killed = false) (fin : Bool) (len : Nat) (payload : Bytes) :
    Sends st.pending (dataFrame env cfg st fin len payload) := by
  unfold dataFrame
  split_ifs
  · exact Sends.cut alive _ _ _
  · exact complete_sends (show (addPart st fin len payload).killed = false from alive)
  · exact Sends.hold (addPart st fin len payload)

theorem takeFrame_sends (alive : st.killed = false) (fin : Bool) (op off len : Nat) :
    Sends (Engine.hold st (frameEnd off len)).pending (takeFrame env cfg st fin op off len) := by
  have held : (Engine.hold st (frameEnd off len)).killed = false := alive
  simp only [takeFrame]
  split_ifs
  · exact Sends.cut held _ _ _
  · unfold controlFrame
    split_ifs
    · exact Sends.hold _
    · exact Sends.flush _
  · exact dataFrame_sends held fin len _

theorem Conforming.sends {held : List Bytes} {done : St × List Call} (before : Conforms false ((Frame.split sent).1.map Frame.header))
    (after : Conforms false ((Frame.split (sent ++ held.flatten)).1.map Frame.header)) (sends : Sends held done) :
    Conforming done.1 (sent ++ forwardedBy done.2) := by
  rcases sends with ⟨nothing,kept⟩ | ⟨all,none⟩
  · rw [nothing,List.append_nil]
    refine ⟨before,fun live => ?_⟩
    rw [kept live]
    exact after
  · rw [all]
    refine ⟨after,fun _ => ?_⟩
    rw [none,List.flatten_nil,List.append_nil]
    exact after

theorem takeFrame_conforming {fin : Bool} {op off len : Nat} (flow : Flow body st sent log)
    (conforming : Conforming st sent) (alive : st.killed = false)
    (found : frameHeader cfg st.inMsg st.msgLen st.acc = .frame fin op off len) :
    Conforming (takeFrame env cfg st fin op off len).1 (sent ++ forwardedBy (takeFrame env cfg st fin op off len).2) := by
  obtain ⟨⟨fs,ready⟩,_⟩ := flow.live alive
  obtain ⟨_,_,parsed⟩ := frameHeader_frame found
  have sound : ∀ v, frameHeader cfg st.inMsg st.msgLen st.acc ≠ .refuse v := by simp [found]
  have allowed := frameHeader_allowed sound (Frame.readHeader_parse parsed)
  have earlier := conforming.held alive
  rw [ready.frames] at earlier
  refine Conforming.sends conforming.gone ?_ (takeFrame_sends alive fin op off len)
  have frames := Frame.split_frame ready.frames parsed
  have pending : sent ++ (Engine.hold st (frameEnd off len)).pending.flatten =
      sent ++ st.pending.flatten ++ (frameOf st.acc fin op off len).raw := by simp [Engine.hold,frameOf]
  rw [pending,frames,List.map_append,List.map_singleton,conforms_concat,Frame.opens_assemble,ready.isOpen]
  exact ⟨earlier,allowed⟩

/-- The flow of a session whose frames conform. -/
def Strict : Account := fun body st sent log => Flow body st sent log ∧ Conforming st sent

theorem Strict.violate (strict : Strict body st sent log) (alive : st.killed = false) (data : Bytes) (rule : Rule)
    (detail : Str) : Account.After Strict (body ++ data) (violate env cfg st rule detail) sent log := by
  refine ⟨(strict.1.inspected.extend data).violate alive rule detail,?_⟩
  exact Conforming.sends strict.2.gone (strict.2.held alive) (Sends.cut alive st.pending rule detail)

theorem pump_strict (strict : Strict body st sent log) : Account.After Strict body (pump env cfg st) sent log := by
  refine pump_rule (motive := fun st done => ∀ sent log, Strict body st sent log →
    Account.After Strict body done sent log) ?_ ?_ ?_ ?_ st sent log strict
  · intro st _ sent log strict
    exact .idle strict
  · intro st need alive waits sent log strict
    exact .idle ⟨strict.1.same rfl rfl,strict.2.gone,strict.2.held⟩
  · intro st v alive _ sent log strict
    have cuts : Account.After Strict (body ++ []) (violate env cfg st v.rule v.detail) sent log :=
      strict.violate alive [] _ _
    rwa [List.append_nil] at cuts
  · intro st fin op off len alive found ih sent log strict
    have taken : FlowAfter body (takeFrame env cfg st fin op off len) sent log :=
      takeFrame_flow strict.1 alive found
    have next := ih _ _ ⟨taken,takeFrame_conforming strict.1 strict.2 alive found⟩
    simpa [Account.After] using next

theorem receive_strict (strict : Strict body st sent log) (alive : st.killed = false) (data : Bytes) :
    Account.After Strict (body ++ data) ((receive env cfg st data).1,(receive env cfg st data).2.1) sent log := by
  have arrived := strict.1.arrive data
  unfold receive
  split_ifs
  · have read : Strict body (msgRead st) sent log := ⟨strict.1.same rfl rfl,strict.2.gone,strict.2.held⟩
    exact read.violate alive data _ _
  · exact .idle ⟨arrived,strict.2.gone,strict.2.held⟩
  · apply pump_strict
    exact ⟨arrived.same (by simp [St.inner,joined]) rfl,strict.2.gone,strict.2.held⟩

end Steps

theorem strict_carries (env : Env) (cfg : Cfg) : Carries env cfg Strict where
  enters st stop idle _ := by
    apply pump_strict
    have nothing : (upgraded st stop).pending = [] := idle.pending
    have empty : Conforms false ((Frame.split []).1.map Frame.header) := by simp [Conforms]
    refine ⟨idle.flow stop,empty,fun _ => ?_⟩
    rw [nothing]
    exact empty
  rests body st sent log data killed strict :=
    ⟨(flow_carries env cfg).rests _ _ _ _ data killed strict.1,strict.2.gone,strict.2.held⟩
  clocked _ _ _ _ _ _ strict := ⟨strict.1.same rfl rfl,strict.2.gone,strict.2.held⟩
  violates _ _ _ _ data rule detail alive strict := strict.violate alive data rule detail
  receives _ _ _ _ data alive strict := receive_strict strict alive data

/-- A live session has refused no header: those of the client's frames conform, up to one
whose payload is still to come. -/
theorem Strict.headers {cfg : Cfg} {body sent : Bytes} {st : St} {log : List (Bytes × Bool)}
    (strict : Strict body st sent log) (alive : st.killed = false) (waiting : Waiting cfg st) :
    Conforms false (Frame.headers body) := by
  obtain ⟨⟨fs,ready⟩,_⟩ := strict.1.live alive
  have earlier := strict.2.held alive
  rw [ready.frames] at earlier
  rw [ready.stream,List.append_assoc _ st.acc,Frame.headers_append ready.frames,conforms_append,
    Frame.opens_assemble,ready.isOpen,Frame.headers_incomplete waiting.incomplete]
  refine ⟨earlier,?_⟩
  cases read : Frame.readHeader (st.acc ++ st.chunks.flatten) with
  | none => trivial
  | some h =>
    have sound : ∀ v, frameHeader cfg st.inMsg st.msgLen (st.acc ++ st.chunks.flatten) ≠ .refuse v := by
      simp [waiting.still]
    exact ⟨frameHeader_allowed sound read,trivial⟩

/-! ## The Close frame of a violation -/

theorem forwarded_quiet {trace : Trace} (quiet : ∀ entry ∈ trace, entry.2.quiet) :
    toUpstream trace = forwardedUp trace := by
  apply List.flatMap_congr
  rintro ⟨direction,call⟩ member
  have forwards := quiet _ member
  cases direction <;> cases call <;> first | rfl | simp [Call.quiet] at forwards

/-- Besides what it forwards an upgraded session sends upstream at most one Close frame, last
and when it is cut. -/
structure ClosesLast (st : St) (trace : Trace) : Prop where
  alive : st.killed = false → toUpstream trace = forwardedUp trace
  upgraded : st.mode = .ws → ∃ close, toUpstream trace = forwardedUp trace ++ close ∧
    (close = [] ∨ ∃ rule : Rule, close = framed opClose (closePayload 1008 rule.text) true)

theorem ClosesLast.step {env : Env} {cfg : Cfg} {st : St} {trace : Trace} (closed : ClosesLast st trace) (settled : Settled st)
    (c : Callback) : ClosesLast (respond env cfg st c).1 (trace ++ (respond env cfg st c).2.map (Prod.mk c.direction)) := by
  cases killed : st.killed with
  | true =>
    rw [respond_killed env cfg killed settled]
    refine ⟨fun alive => by simp [killed] at alive,fun ws => ?_⟩
    obtain ⟨close,sent,last⟩ := closed.upgraded ws
    refine ⟨close,?_,last⟩
    rw [toUpstream_append,forwardedUp_append,sent]
    cases c <;> simp [toUpstream,forwardedUp,upstreamBytes,forwardedUpBytes,Callback.direction]
  | false =>
    have before := closed.alive killed
    rcases respond_outcome env cfg killed c with ⟨alive,quiet⟩ | ⟨dead,earlier,v,quiet,calls⟩
    · have same : toUpstream ((respond env cfg st c).2.map (Prod.mk c.direction)) =
          forwardedUp ((respond env cfg st c).2.map (Prod.mk c.direction)) := by
        apply forwarded_quiet
        simpa using quiet
      have whole : toUpstream (trace ++ (respond env cfg st c).2.map (Prod.mk c.direction)) =
          forwardedUp (trace ++ (respond env cfg st c).2.map (Prod.mk c.direction)) := by
        rw [toUpstream_append,forwardedUp_append,before,same]
      exact ⟨fun _ => whole,fun _ => ⟨[],by rw [whole,List.append_nil],Or.inl rfl⟩⟩
    · refine ⟨fun alive => by simp [dead] at alive,fun ws => ?_⟩
      cases c with
      | downstream data flags =>
        by_cases plain : st.mode = .plain
        · have done : st.mode ≠ .handshake := by simp [plain]
          have kept := respond_mode env cfg done (.downstream data flags)
          rw [ws,plain] at kept
          contradiction
        · rw [respond_other env cfg plain] at dead
          simp [killed] at dead
      | upstream data flags =>
        have same : toUpstream (earlier.map (Prod.mk .upstream)) = forwardedUp (earlier.map (Prod.mk .upstream)) := by
          apply forwarded_quiet
          simpa using quiet
        refine ⟨_,?_,Or.inr ⟨v.rule,rfl⟩⟩
        have silent : forwardedUp ((Call.verdict v::closing v.rule).map (Prod.mk .upstream)) = [] := by
          rw [forwardedUp_calls]
          exact (forwardedBy_closing v v.rule).1
        rw [calls,Callback.direction,List.map_append,toUpstream_append,toUpstream_append,upstreamBytes_closing,
          forwardedUp_append,forwardedUp_append,silent,before,same,List.append_nil,List.append_assoc]

theorem session_closesLast (env : Env) (callbacks : List Callback) :
    ClosesLast (session env callbacks).1 (session env callbacks).2 := by
  induction callbacks using List.reverseRecOn with
  | nil => exact ⟨fun _ => rfl,fun ws => by simp [session,filter] at ws⟩
  | append_singleton before c ih =>
    rw [session_concat]
    exact ih.step (session_settled env before) c

theorem close_allowed (rule : Rule) (isOpen : Bool) :
    (injectedFrame opClose (closePayload 1008 rule.text) true).header.Allowed isOpen := by
  have short := (closing_short rule).2
  have few : (closePayload 1008 rule.text).length ≤ 125 := by omega
  refine ⟨rfl,rfl,Nat.lt_of_le_of_lt few (by decide),fun _ => ⟨rfl,few⟩,fun data => ?_⟩
  simp [Frame.header,injectedFrame,opClose] at data

theorem close_conforms {sent close : Bytes} (whole : (Frame.split sent).2 = [])
    (conforms : Conforms false ((Frame.split sent).1.map Frame.header))
    (last : close = [] ∨ ∃ rule : Rule, close = framed opClose (closePayload 1008 rule.text) true) :
    (Frame.split (sent ++ close)).2 = [] ∧ Conforms false ((Frame.split (sent ++ close)).1.map Frame.header) := by
  rcases last with rfl | ⟨rule,rfl⟩
  · rw [List.append_nil]
    exact ⟨whole,conforms⟩
  · have parsed : Frame.parse (framed opClose (closePayload 1008 rule.text) true) = _ :=
      framed_parse true (by decide) (closing_short rule).2
    have frames := Frame.split_frame (Prod.ext rfl whole : Frame.split sent = ((Frame.split sent).1,[])) parsed
    have raw : (injectedFrame opClose (closePayload 1008 rule.text) true).raw =
        framed opClose (closePayload 1008 rule.text) true := rfl
    rw [raw] at frames
    rw [frames,List.map_append,List.map_singleton,conforms_concat]
    exact ⟨rfl,conforms,close_allowed rule _⟩

/-- The bytes sent upstream after the head, those of the body and those of the engine, are
whole frames that conform. Where the client's headers do not, the session is cut and nothing
from the first offending frame on has been sent. -/
structure Grammatical (body sent close : Bytes) (killed : Bool) : Prop where
  whole : (Frame.split (sent ++ close)).2 = []
  conforms : Conforms false ((Frame.split (sent ++ close)).1.map Frame.header)
  cut : ¬ Conforms false (Frame.headers body) → killed = true
  before : ∀ good bad rest, Frame.headers body = good ++ bad::rest → ¬ Conforms false (good ++ [bad]) →
    (Frame.split sent).1.map Frame.header <+: good

theorem Strict.before {body sent : Bytes} {st : St} {log : List (Bytes × Bool)} (strict : Strict body st sent log)
    {good rest : List Frame.Header} {bad : Frame.Header} (headers : Frame.headers body = good ++ bad::rest)
    (offends : ¬ Conforms false (good ++ [bad])) : (Frame.split sent).1.map Frame.header <+: good := by
  obtain ⟨more,rfl⟩ := strict.1.inspected.started
  have frames : Frame.split sent = ((Frame.split sent).1,[]) := Prod.ext rfl strict.1.inspected.whole
  rw [Frame.headers_append frames] at headers
  have started : (Frame.split sent).1.map Frame.header <+: good ++ bad::rest := ⟨_,headers⟩
  have offending : good ++ [bad] <+: good ++ bad::rest := ⟨rest,by simp⟩
  rcases List.prefix_or_prefix_of_prefix started offending with early | late
  · rcases List.prefix_concat_iff.mp early with same | within
    · exact absurd (same ▸ strict.2.gone) offends
    · exact within
  · exact absurd (strict.2.gone.start late) offends

/-- For every client's stream what an upgraded session sends upstream is grammatical. -/
theorem frames_conform (env : Env) (callbacks : List Callback) (upgraded : (session env callbacks).1.mode = .ws) :
    ∃ head body sent close, CutHead (clientStream callbacks) head ∧ clientStream callbacks = head ++ body ∧
      forwardedUp (session env callbacks).2 = fromString (Text.toString head) ++ sent ∧
      toUpstream (session env callbacks).2 = fromString (Text.toString head) ++ (sent ++ close) ∧
      Grammatical body sent close (session env callbacks).1.killed := by
  obtain ⟨head,body,sent,cut,stream,forwarded,strict⟩ :=
    (session_carried env (strict_carries env (readCfg env)) callbacks).upgraded upgraded
  obtain ⟨close,sends,last⟩ := (session_closesLast env callbacks).upgraded upgraded
  obtain ⟨whole,conforms⟩ := close_conforms strict.1.inspected.whole strict.2.gone last
  refine ⟨head,body,sent,close,cut,stream,forwarded,?_,whole,conforms,?_,?_⟩
  · rw [sends,forwarded,List.append_assoc]
  · intro offends
    by_contra alive
    have live : (session env callbacks).1.killed = false := by simpa using alive
    exact offends (strict.headers live (session_waiting env callbacks upgraded live))
  · intro good bad rest headers offends
    exact strict.before headers offends

theorem frames_conform_close :
    ∃ head body sent close, CutHead (clientStream [sends upgradeRequest,sends (message "[\"CLOSE\",\"a\"]")]) head ∧
      clientStream [sends upgradeRequest,sends (message "[\"CLOSE\",\"a\"]")] = head ++ body ∧
      forwardedUp (session (listener "") [sends upgradeRequest,sends (message "[\"CLOSE\",\"a\"]")]).2 =
        fromString (Text.toString head) ++ sent ∧
      toUpstream (session (listener "") [sends upgradeRequest,sends (message "[\"CLOSE\",\"a\"]")]).2 =
        fromString (Text.toString head) ++ (sent ++ close) ∧
      Grammatical body sent close
        (session (listener "") [sends upgradeRequest,sends (message "[\"CLOSE\",\"a\"]")]).1.killed :=
  frames_conform (listener "") [sends upgradeRequest,sends (message "[\"CLOSE\",\"a\"]")] (by decide +kernel)

/-- A text frame of thirteen bytes with its length in sixteen bits. -/
def overlong : Bytes := [0x81,0xFE,0,13,0,0,0,0] ++ bytes "[\"CLOSE\",\"a\"]"

theorem overlong_forwarded : (session (listener "") [sends upgradeRequest,sends overlong]).1.mode = .ws ∧
    forwardedUp (session (listener "") [sends upgradeRequest,sends overlong]).2 = upgradeRequest ++ overlong ∧
    ∃ f, Frame.parse overlong = some (f,[]) ∧ f.raw.length ≠ Frame.leastSize f := by
  refine ⟨by decide +kernel,by decide +kernel,?_⟩
  have sizes : (Frame.parse overlong).map (fun found => (found.2,found.1.raw.length,Frame.leastSize found.1)) =
      some ([],21,19) := by decide +kernel
  obtain ⟨⟨f,rest⟩,parsed,same⟩ := Option.map_eq_some_iff.mp sizes
  simp only [Prod.mk.injEq] at same
  obtain ⟨rfl,size,least⟩ := same
  exact ⟨f,parsed,by omega⟩

end FipsShield.Engine
