import FipsShield.Stream

/-! What a live upgraded session has buffered: never a whole frame, so every frame
of the client's stream is taken in the read that completes it. -/
namespace FipsShield.Engine
open Text FipsShield.Core

theorem frameHeader_incomplete {cfg : Cfg} {inMsg : Bool} {msgLen need : Nat} {acc : Bytes}
    (waits : frameHeader cfg inMsg msgLen acc = .wait need) : Frame.parse acc = none := by
  cases parsed : Frame.parse acc with
  | none => rfl
  | some pair =>
    obtain ⟨off,len,ext,_,whole⟩ := Frame.parse_extent parsed
    have bounds := Frame.extent_bounds ext
    simp only [frameHeader] at waits
    split_ifs at waits with tiny reserved unmasked
    · omega
    · have masked : Frame.masked acc = true := by simpa [Frame.masked] using unmasked
      have start : Frame.payloadStart acc off = off + 4 := by rw [Frame.payloadStart,if_pos masked]
      cases field : lengthField acc with
      | refuse v =>
        rw [field] at waits
        contradiction
      | wait size =>
        simp only [lengthField] at field
        simp only [Frame.extent] at ext
        split_ifs at field ext
      | extent other size =>
        have same := lengthField_extent (by omega) field
        rw [ext] at same
        cases same
        simp only [field] at waits
        split at waits
        · contradiction
        · split_ifs at waits with short
          rw [start] at whole
          unfold frameEnd at short
          omega

structure Waiting (cfg : Cfg) (st : St) : Prop where
  header : frameHeader cfg st.inMsg st.msgLen st.acc = .wait st.need
  length : st.pendingLen = st.chunks.flatten.length
  short : st.acc.length + st.pendingLen < st.need

def Joined (st : St) : Prop := st.chunks = [] ∧ st.pendingLen = 0

theorem Waiting.still {cfg : Cfg} {st : St} (waiting : Waiting cfg st) :
    frameHeader cfg st.inMsg st.msgLen (st.acc ++ st.chunks.flatten) = .wait st.need := by
  apply (frameHeader_wait waiting.header).2
  rw [List.length_append,← waiting.length]
  exact waiting.short

theorem Waiting.incomplete {cfg : Cfg} {st : St} (waiting : Waiting cfg st) :
    Frame.parse (st.acc ++ st.chunks.flatten) = none := frameHeader_incomplete waiting.still

section Steps
variable (env : Env) (cfg : Cfg) (st : St)

theorem violate_joined (nothing : Joined st) (rule : Rule) (detail : Str) :
    Joined (violate env cfg st rule detail).1 := by
  unfold violate
  split_ifs
  · exact nothing
  · exact ⟨rfl,rfl⟩

theorem inspect_joined (nothing : Joined st) (buf : Bytes) : Joined (inspect env cfg st buf).1 := by
  cases found : (police env cfg st.lim buf).1 with
  | none =>
    rw [inspect_accepts found]
    exact nothing
  | some v =>
    have joined : Joined (st.limited (police env cfg st.lim buf).2) := nothing
    rw [inspect_rejects found]
    exact violate_joined env cfg _ joined _ _

theorem dataFrame_joined (nothing : Joined st) (fin : Bool) (len : Nat) (payload : Bytes) :
    Joined (dataFrame env cfg st fin len payload).1 := by
  unfold dataFrame
  split_ifs
  · exact violate_joined env cfg _ nothing _ _
  · have seen := inspect_joined env cfg (newMessage (addPart st fin len payload)) nothing
      (addPart st fin len payload).msgParts.flatten
    simp only [complete]
    split_ifs <;> exact seen
  · exact nothing

theorem takeFrame_joined (nothing : Joined st) (fin : Bool) (op off len : Nat) :
    Joined (takeFrame env cfg st fin op off len).1 := by
  simp only [takeFrame]
  split_ifs
  · exact violate_joined env cfg (hold st (frameEnd off len)) nothing _ _
  · unfold controlFrame
    split_ifs <;> exact nothing
  · exact dataFrame_joined env cfg (hold st (frameEnd off len)) nothing fin len _

theorem pump_joined (nothing : Joined st) : Joined (pump env cfg st).1 := by
  refine pump_rule (motive := fun st done => Joined st → Joined done.1) ?_ ?_ ?_ ?_ st nothing
  · intro st _ nothing
    exact nothing
  · intro st need _ _ nothing
    exact nothing
  · intro st v _ _ nothing
    exact violate_joined env cfg _ nothing _ _
  · intro st fin op off len _ _ ih nothing
    exact ih (takeFrame_joined env cfg _ nothing fin op off len)

theorem pump_waits (alive : (pump env cfg st).1.killed = false) :
    frameHeader cfg (pump env cfg st).1.inMsg (pump env cfg st).1.msgLen (pump env cfg st).1.acc =
      .wait (pump env cfg st).1.need := by
  revert alive
  refine pump_rule (motive := fun st done => done.1.killed = false →
    frameHeader cfg done.1.inMsg done.1.msgLen done.1.acc = .wait done.1.need) ?_ ?_ ?_ ?_ st
  · intro st killed alive
    simp [killed] at alive
  · intro st need _ waits _
    exact waits
  · intro st v live _ alive
    rw [violate_alive env cfg live] at alive
    simp [cut] at alive
  · intro st fin op off len _ _ ih alive
    exact ih alive

theorem pump_waiting (nothing : Joined st) (alive : (pump env cfg st).1.killed = false) :
    Waiting cfg (pump env cfg st).1 := by
  obtain ⟨chunks,length⟩ := pump_joined env cfg st nothing
  have waits := pump_waits env cfg st alive
  refine ⟨waits,?_,?_⟩
  · simp [chunks,length]
  · simpa [length] using (frameHeader_wait waits).1

theorem receive_waiting (waiting : Waiting cfg st) (live : st.killed = false) (data : Bytes)
    (alive : (receive env cfg st data).1.killed = false) : Waiting cfg (receive env cfg st data).1 := by
  unfold receive at alive ⊢
  split_ifs at alive ⊢ with many few
  · rw [violate_alive env cfg (msgRead_alive live)] at alive
    simp [cut] at alive
  · refine ⟨waiting.header,?_,few⟩
    simp [buffered,msgRead,waiting.length]
  · exact pump_waiting env cfg (joined (buffered st data)) ⟨rfl,rfl⟩ alive

theorem respond_upgraded (ws : st.mode = .ws) (c : Callback)
    (alive : (respond env cfg st c).1.killed = false) :
    ∃ time ticks,
      (c.sent = [] ∧ (respond env cfg st c).1 = st.clocked time ticks ∧
        inspectedBy (respond env cfg st c).2 = []) ∨
      ∃ data flags, c = .upstream data flags ∧ data ≠ [] ∧
        (respond env cfg st c).1 = (receive env cfg (st.clocked time ticks) data).1 ∧
        inspectedBy (respond env cfg st c).2 =
          inspectedBy (receive env cfg (st.clocked time ticks) data).2.1 := by
  have live : st.killed = false := by
    by_contra dead
    have still := respond_stays env cfg (Bool.eq_true_of_not_eq_false dead) c
    simp [still] at alive
  cases c with
  | downstream data flags =>
    rw [respond_other env cfg (by simp [ws])]
    exact ⟨st.banCheckAt,st.lim.ticks,Or.inl ⟨rfl,rfl,rfl⟩⟩
  | upstream data flags =>
    rcases upstream_cases env cfg live data flags with
      ⟨_,_,time,ticks,rule,detail,cuts⟩ | ⟨plain,_⟩ | ⟨_,_,time,ticks,reads⟩
    · rw [respond,cuts,violate_alive env cfg (clocked_alive live time ticks)] at alive
      simp [cut] at alive
    · simp [ws] at plain
    · have silent (st : St) : inspectedBy (propagate flags st) = [] := by
        unfold propagate
        split_ifs <;> rfl
      refine ⟨time,ticks,?_⟩
      simp only [respond,reads]
      by_cases empty : data = []
      · refine Or.inl ⟨empty,?_,?_⟩
        · simp only [finish,read,if_pos empty]
        · simp only [finish,read,if_pos empty,if_true,List.nil_append,silent]
      · have received : read env cfg (st.clocked time ticks) data = receive env cfg (st.clocked time ticks) data := by
          rw [read,if_neg empty,if_neg (by simp [St.clocked,ws])]
        refine Or.inr ⟨data,flags,rfl,empty,?_,?_⟩
        · simp only [finish,received]
        · simp only [finish,received]
          split_ifs
          · rw [inspectedBy_append,silent,List.append_nil]
          · rfl

end Steps

/-- What every live upgraded session satisfies: it is set up by the end of the handshake
and survives the clock and every read. -/
theorem upgraded_rule (env : Env) {P : List Callback → St → Prop}
    (enters : ∀ before c st stop, Idle st → st.hs = clientStream (before ++ [c]) →
      headerBlockEnd st.hs 0 = some stop → (pump env (readCfg env) (upgraded st stop)).1.killed = false →
      P (before ++ [c]) (pump env (readCfg env) (upgraded st stop)).1)
    (waits : ∀ before c st time ticks, P before st → c.sent = [] → P (before ++ [c]) (st.clocked time ticks))
    (reads : ∀ before data flags time ticks, (session env before).1.mode = .ws → data ≠ [] →
      (session env before).1.killed = false → P before (session env before).1 →
      (session env (before ++ [.upstream data flags])).1 =
        (receive env (readCfg env) ((session env before).1.clocked time ticks) data).1 →
      inspections (session env (before ++ [.upstream data flags])).2 = inspections (session env before).2 ++
        inspectedBy (receive env (readCfg env) ((session env before).1.clocked time ticks) data).2.1 →
      (session env (before ++ [.upstream data flags])).1.killed = false →
      P (before ++ [.upstream data flags]) (session env (before ++ [.upstream data flags])).1)
    (callbacks : List Callback) (ws : (session env callbacks).1.mode = .ws)
    (alive : (session env callbacks).1.killed = false) : P callbacks (session env callbacks).1 := by
  induction callbacks using List.reverseRecOn with
  | nil => simp [session,filter] at ws
  | append_singleton before c ih =>
    have step : (session env (before ++ [c])).1 = (respond env (readCfg env) (session env before).1 c).1 := by
      rw [session_concat]
      rfl
    cases session_phase env before with
    | sniffing sniffs _ =>
      rw [step] at ws alive ⊢
      rcases respond_sniffing env (readCfg env) sniffs c with
        ⟨_,_,seen,rule,detail,live,mode,cuts⟩ | ⟨_,still,_⟩ | ⟨_,data,flags,time,ticks,stop,rfl,found,clean,done⟩
      · rw [cuts,violate_alive env _ live] at alive
        simp [cut] at alive
      · exact absurd (still.mode.symm.trans ws) (by decide)
      · have started := sniffs.clocked time ticks
        have hs : (scanned ((session env before).1.clocked time ticks) data).hs =
            clientStream (before ++ [.upstream data flags]) := by
          simp [scanned,started.whole,clientStream,Callback.sent]
        have idle : Idle (scanned ((session env before).1.clocked time ticks) data) := started.idle.same rfl
        have whole : clientStream (before ++ [.upstream data flags]) = clientStream before ++ data := by
          simp [clientStream,Callback.sent]
        obtain ⟨mode,_⟩ := classify_accepts env (readCfg env)
          (show (scanned ((session env before).1.clocked time ticks) data).killed = false from started.alive) stop
        generalize scanned ((session env before).1.clocked time ticks) data = ready at done hs idle mode
        rw [done] at ws alive ⊢
        have asks : upgradeTest (Text.toString (ready.hs.take stop)) = true := by
          by_contra other
          have plain := mode.symm.trans ws
          simp [other] at plain
        simp only [finish,classify_ws env _ asks] at alive ⊢
        exact enters before _ ready stop idle hs (by rw [hs,whole]; exact found) alive
    | refused killed _ _ _ =>
      rw [step,respond_stays env (readCfg env) killed c] at alive
      contradiction
    | accepted head accepts =>
      have kept := respond_mode env (readCfg env) accepts.mode_ne c
      have upgraded : (session env before).1.mode = .ws := by rw [← kept,← step,ws]
      have live : (session env before).1.killed = false := by
        by_contra dead
        have still := respond_stays env (readCfg env) (Bool.eq_true_of_not_eq_false dead) c
        simp [step,still] at alive
      have earlier := ih upgraded live
      rw [step] at alive
      obtain ⟨time,ticks,⟨silent,state,_⟩ | ⟨data,flags,rfl,filled,state,logged⟩⟩ :=
        respond_upgraded env (readCfg env) _ upgraded c alive
      · rw [step,state]
        exact waits before c _ time ticks earlier silent
      · apply reads before data flags time ticks upgraded filled live earlier
        · rw [step,state]
        · rw [session_concat,inspections_append]
          exact congrArg _ ((inspections_calls _ _).trans logged)
        · rw [step]
          exact alive

theorem session_waiting (env : Env) (callbacks : List Callback)
    (ws : (session env callbacks).1.mode = .ws) (alive : (session env callbacks).1.killed = false) :
    Waiting (readCfg env) (session env callbacks).1 := by
  refine upgraded_rule env (P := fun _ st => Waiting (readCfg env) st) ?_ ?_ ?_ callbacks ws alive
  · intro before c st stop idle _ _ live
    exact pump_waiting env _ _ ⟨idle.chunks,idle.pendingLen⟩ live
  · intro before c st time ticks waiting _
    exact ⟨waiting.header,waiting.length,waiting.short⟩
  · intro before data flags time ticks _ _ live waiting state _ still
    rw [state] at still ⊢
    have clocked : Waiting (readCfg env) ((session env before).1.clocked time ticks) :=
      ⟨waiting.header,waiting.length,waiting.short⟩
    exact receive_waiting env _ _ clocked live data still

end FipsShield.Engine
