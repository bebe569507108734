import FipsShield.Reads
import Mathlib.Tactic.Linarith

/-! What a live session holds between callbacks: every buffer and counter is within
its cap, and they agree with each other. -/
namespace FipsShield.Engine
open Text FipsShield.Core

theorem within_budget {budget : Number} (nonneg : 0 ≤ budget) {reads : Nat}
    (spared : ¬ budget < (reads : Number)) : (reads : Number) ≤ budget := by
  apply (Number.not_lt_iff_le reads budget _).mp spared
  rintro rfl
  cases nonneg

theorem refused_data {cfg : Cfg} {inMsg fin : Bool} {msgLen op len : Nat}
    (passed : refused cfg inMsg msgLen fin op len = none) (data : ¬ 8 ≤ op) :
    ¬ cfg.maxMsg < (msgLen + len : Nat) := by
  intro large
  rw [refused,if_neg data] at passed
  split_ifs at passed

theorem refused_control {cfg : Cfg} {inMsg fin : Bool} {msgLen op len : Nat}
    (passed : refused cfg inMsg msgLen fin op len = none) (control : 8 ≤ op) : len ≤ 125 := by
  by_contra long
  have large : (!fin || decide (125 < len)) = true := by simp; omega
  rw [refused,if_pos control,if_pos large] at passed
  contradiction

theorem frameHeader_need {cfg : Cfg} {inMsg : Bool} {msgLen need : Nat} {acc : Bytes}
    (waits : frameHeader cfg inMsg msgLen acc = .wait need) :
    need ≤ 139 ∨ ∃ len, need ≤ len + 14 ∧ ¬ cfg.maxMsg < (msgLen + len : Nat) := by
  simp only [frameHeader] at waits
  split_ifs at waits with tiny reserved unmasked
  · cases waits
    exact Or.inl (by omega)
  · cases field : lengthField acc with
    | refuse v =>
      rw [field] at waits
      contradiction
    | wait size =>
      rw [field] at waits
      cases waits
      simp only [lengthField] at field
      split_ifs at field <;> cases field <;> exact Or.inl (by omega)
    | extent off len =>
      have short := Frame.extent_le (lengthField_extent (by omega) field)
      simp only [field] at waits
      split at waits
      · contradiction
      · next passed =>
        split_ifs at waits
        cases waits
        simp only [frameEnd]
        by_cases control : 8 ≤ (Buffer.byteAt acc 0 &&& 0x0F).toNat
        · have small := refused_control passed control
          exact Or.inl (by omega)
        · exact Or.inr ⟨len,by omega,refused_data passed control⟩

/-- What the session holds of a message, and of frames behind it, is within the caps. -/
structure Held (cfg : Cfg) (st : St) : Prop where
  length : st.msgLen = st.msgParts.flatten.length
  size : (st.msgLen : Number) ≤ cfg.maxMsg
  fragments : st.msgParts.length ≤ maxFragments
  frames : st.pending.length ≤ maxPendingFrames
  idle : st.inMsg = false → st.pending = [] ∧ st.msgParts = [] ∧ st.msgLen = 0

section Steps
variable {env : Env} {cfg : Cfg} (nonneg : 0 ≤ cfg.maxMsg) {st : St}

theorem Held.released (nonneg : 0 ≤ cfg.maxMsg) (nothing : st.pending = [] ∧ st.msgParts = [] ∧ st.msgLen = 0) :
    Held cfg st := by
  obtain ⟨pending,parts,len⟩ := nothing
  refine ⟨?_,?_,?_,?_,fun _ => ⟨pending,parts,len⟩⟩
  · rw [len,parts]
    rfl
  · rw [len]
    exact nonneg
  · rw [parts]
    exact Nat.zero_le _
  · rw [pending]
    exact Nat.zero_le _

section Kept
variable (held : Held cfg st)
include held

theorem Held.clock (banCheckAt : Number) (ticks : Nat) : Held cfg (st.clocked banCheckAt ticks) :=
  ⟨held.length,held.size,held.fragments,held.frames,held.idle⟩

theorem Held.buffer (data : Bytes) : Held cfg (buffered st data) :=
  ⟨held.length,held.size,held.fragments,held.frames,held.idle⟩

theorem Held.join : Held cfg (joined st) := ⟨held.length,held.size,held.fragments,held.frames,held.idle⟩

end Kept

include nonneg

theorem complete_held (alive : st.killed = false) (still : (complete env cfg st).1.killed = false) :
    Held cfg (complete env cfg st).1 := by
  cases found : (police env cfg st.lim st.msgParts.flatten).1 with
  | none =>
    rw [complete_accepts env cfg alive found]
    exact .released nonneg ⟨rfl,rfl,rfl⟩
  | some v =>
    rw [complete_rejects env cfg alive found] at still
    simp [cut] at still

theorem dataFrame_held (length : st.msgLen = st.msgParts.flatten.length)
    (few : st.pending.length ≤ maxPendingFrames) (alive : st.killed = false) {fin : Bool} {payload : Bytes}
    (room : ((st.msgLen + payload.length : Nat) : Number) ≤ cfg.maxMsg)
    (still : (dataFrame env cfg st fin payload.length payload).1.killed = false) :
    Held cfg (dataFrame env cfg st fin payload.length payload).1 := by
  unfold dataFrame at still ⊢
  split_ifs at still ⊢ with many final
  · rw [violate_alive env cfg alive] at still
    simp [cut] at still
  · have live : (addPart st fin payload.length payload).killed = false := alive
    exact complete_held nonneg live still
  · refine ⟨?_,room,?_,few,fun closed => ?_⟩
    · simp only [addPart,length,List.flatten_append,List.length_append]
      simp
    · simp only [addPart,List.length_append,List.length_singleton]
      omega
    · simp [addPart,final] at closed

theorem takeFrame_held (held : Held cfg st) (alive : st.killed = false) {fin : Bool} {op off len : Nat}
    (found : frameHeader cfg st.inMsg st.msgLen st.acc = .frame fin op off len)
    (still : (takeFrame env cfg st fin op off len).1.killed = false) :
    Held cfg (takeFrame env cfg st fin op off len).1 := by
  obtain ⟨inside,passed,_⟩ := frameHeader_frame found
  have live : (hold st (frameEnd off len)).killed = false := alive
  have size : (Frame.unmask (Buffer.slice st.acc off (off + 4))
      (Buffer.slice st.acc (off + 4) (frameEnd off len))).length = len := by
    rw [Frame.unmask_length,Buffer.slice,List.length_drop,List.length_take]
    unfold frameEnd at inside ⊢
    omega
  simp only [takeFrame] at still ⊢
  split_ifs at still ⊢ with many large
  · rw [violate_alive env cfg live] at still
    simp [cut] at still
  · unfold controlFrame
    split_ifs with opened
    · have waiting : st.inMsg = true := opened
      exact ⟨held.length,held.size,held.fragments,Nat.le_of_not_lt many,
        fun closed => by simp [hold,waiting] at closed⟩
    · have closed : st.inMsg = false := by simpa [hold] using opened
      obtain ⟨_,parts,none⟩ := held.idle closed
      exact .released nonneg ⟨rfl,parts,none⟩
  · have room := within_budget nonneg (refused_data passed large)
    generalize Frame.unmask (Buffer.slice st.acc off (off + 4))
      (Buffer.slice st.acc (off + 4) (frameEnd off len)) = payload at size still ⊢
    subst size
    have few : (hold st (frameEnd off payload.length)).pending.length ≤ maxPendingFrames := Nat.le_of_not_lt many
    have length : (hold st (frameEnd off payload.length)).msgLen =
        (hold st (frameEnd off payload.length)).msgParts.flatten.length := held.length
    exact dataFrame_held nonneg length few live room still

theorem pump_held (held : Held cfg st) (still : (pump env cfg st).1.killed = false) :
    Held cfg (pump env cfg st).1 := by
  refine pump_rule (motive := fun st done => Held cfg st → done.1.killed = false → Held cfg done.1)
    ?_ ?_ ?_ ?_ st held still
  · intro st _ held _
    exact held
  · intro st need _ _ held _
    exact ⟨held.length,held.size,held.fragments,held.frames,held.idle⟩
  · intro st v alive _ _ still
    rw [violate_alive env cfg alive] at still
    simp [cut] at still
  · intro st fin op off len alive found ih held still
    have taken : (takeFrame env cfg st fin op off len).1.killed = false := by
      by_contra dead
      rw [pump_killed (Bool.eq_true_of_not_eq_false dead)] at still
      exact dead still
    exact ih (takeFrame_held nonneg held alive found taken) still

end Steps

structure HandshakeBounds (cfg : Cfg) (st : St) : Prop where
  size : st.hs.length ≤ maxHandshake
  reads : (st.hsReads : Number) ≤ cfg.maxHsReads

structure MessageBounds (cfg : Cfg) (st : St) : Prop where
  pendingLen : st.pendingLen = st.chunks.flatten.length
  short : st.acc.length + st.pendingLen < st.need
  need : st.need ≤ 139 ∨ (st.need : Number) ≤ cfg.maxMsg - (st.msgLen : Number) + 14
  reads : (st.msgReads : Number) ≤ cfg.maxMsgReads
  held : Held cfg st

/-- A frame the open message has room for is at most fourteen bytes longer than the room. -/
theorem need_room {maxMsg : Number} (nonneg : 0 ≤ maxMsg) {need len msgLen : Nat} (small : need ≤ len + 14)
    (room : ¬ maxMsg < (msgLen + len : Nat)) :
    (need : Number) ≤ maxMsg - (msgLen : Number) + 14 := by
  have fits := within_budget nonneg room
  cases maxMsg with
  | nan => cases nonneg
  | negInf => cases nonneg
  | posInf => rfl
  | fin q =>
    have inside : ((msgLen + len : Nat) : ℚ) ≤ q := (Number.fin_le_fin _ _).mp fits
    apply (Number.fin_le_fin _ _).mpr
    have larger : (need : ℚ) ≤ len + 14 := by exact_mod_cast small
    have sum : ((14 : Nat) : ℚ) = 14 := by norm_num
    push_cast at inside
    rw [sum]
    linarith

section Runs
variable (env : Env) (cfg : Cfg) {st : St}

theorem respond_handshake (nonneg : 0 ≤ cfg.maxHsReads) (bounds : HandshakeBounds cfg st)
    (sniffing : st.mode = .handshake) (alive : st.killed = false) (c : Callback)
    (still : (respond env cfg st c).1.killed = false)
    (sniffs : (respond env cfg st c).1.mode = .handshake) : HandshakeBounds cfg (respond env cfg st c).1 := by
  cases c with
  | downstream data flags =>
    rw [respond_other env cfg (by simp [sniffing])]
    exact bounds
  | upstream data flags =>
    rw [respond] at still sniffs ⊢
    rcases upstream_cases env cfg alive data flags with
      ⟨_,_,time,ticks,rule,detail,cuts⟩ | ⟨plain,_⟩ | ⟨_,_,time,ticks,reads⟩
    · have live : (st.clocked time ticks).killed = false := alive
      rw [cuts,violate_alive env cfg live] at still
      simp [cut] at still
    · simp [sniffing] at plain
    · have live : (st.clocked time ticks).killed = false := alive
      rw [reads] at still sniffs ⊢
      simp only [finish,read] at still sniffs ⊢
      split_ifs at still sniffs ⊢ with empty other
      · exact ⟨bounds.size,bounds.reads⟩
      · rcases handshake_cases env cfg data with
          ⟨_,seen,rule,detail,same,_,_,cuts⟩ | ⟨kept,_,waits⟩ | ⟨_,stop,_,_,done⟩
        · rw [cuts,violate_alive env cfg (same.trans live)] at still
          simp [cut] at still
        · rw [waits]
          refine ⟨?_,within_budget nonneg fun many => kept (Or.inl many)⟩
          by_contra large
          exact kept (Or.inr (Or.inl (Nat.lt_of_not_le large)))
        · obtain ⟨mode,_⟩ := classify_accepts env cfg
            (scanned_alive (clocked_alive alive time ticks) data) stop
          rw [done] at sniffs
          have still := mode.symm.trans sniffs
          split_ifs at still
      · exact absurd sniffing other

end Runs

theorem session_handshake (env : Env) (nonneg : 0 ≤ (readCfg env).maxHsReads) (callbacks : List Callback)
    (alive : (session env callbacks).1.killed = false)
    (sniffs : (session env callbacks).1.mode = .handshake) :
    HandshakeBounds (readCfg env) (session env callbacks).1 := by
  induction callbacks using List.reverseRecOn with
  | nil => exact ⟨Nat.zero_le _,nonneg⟩
  | append_singleton before c ih =>
    have step : (session env (before ++ [c])).1 = (respond env (readCfg env) (session env before).1 c).1 := by
      rw [session_concat]
      rfl
    have live : (session env before).1.killed = false := by
      by_contra dead
      have still := session_stays (Bool.eq_true_of_not_eq_false dead) [c]
      simp [still] at alive
    have sniffing : (session env before).1.mode = .handshake := by
      by_contra done
      rw [step] at sniffs
      exact done ((respond_mode env _ done c).symm.trans sniffs)
    rw [step] at alive sniffs ⊢
    exact respond_handshake env _ nonneg (ih live sniffing) sniffing live c alive sniffs

theorem session_reads (env : Env) (nonneg : 0 ≤ (readCfg env).maxMsgReads) (callbacks : List Callback)
    (ws : (session env callbacks).1.mode = .ws) (alive : (session env callbacks).1.killed = false) :
    ((session env callbacks).1.msgReads : Number) ≤ (readCfg env).maxMsgReads := by
  refine upgraded_rule env (P := fun _ st => (st.msgReads : Number) ≤ (readCfg env).maxMsgReads)
    ?_ ?_ ?_ callbacks ws alive
  · intro before c st stop idle _ _ live
    have none : (pump env (readCfg env) (upgraded st stop)).1.msgReads = 0 := by
      rcases pump_counts env (readCfg env) (upgraded st stop) live with ⟨same,_⟩ | reset
      · exact same.trans idle.msgReads
      · exact reset
    rw [none]
    exact nonneg
  · intro before c st time ticks within _
    exact within
  · intro before data flags time ticks _ _ live within state _ still
    rw [state] at still ⊢
    have clocked : ((session env before).1.clocked time ticks).killed = false := live
    by_cases many : (readCfg env).maxMsgReads < (((session env before).1.clocked time ticks).msgReads + 1 : Nat)
    · have read : (msgRead ((session env before).1.clocked time ticks)).killed = false := live
      simp only [receive,if_pos many,violate_alive env _ read] at still
      simp [cut] at still
    · rcases receive_counts env _ ((session env before).1.clocked time ticks) clocked data still with
        ⟨counted,_⟩ | reset
      · rw [counted]
        exact within_budget nonneg many
      · rw [reset]
        exact nonneg

theorem session_holds (env : Env) (nonneg : 0 ≤ (readCfg env).maxMsg) (callbacks : List Callback)
    (ws : (session env callbacks).1.mode = .ws) (alive : (session env callbacks).1.killed = false) :
    Held (readCfg env) (session env callbacks).1 := by
  refine upgraded_rule env (P := fun _ st => Held (readCfg env) st) ?_ ?_ ?_ callbacks ws alive
  · intro before c st stop idle _ _ live
    apply pump_held nonneg _ live
    exact .released nonneg ⟨idle.pending,idle.msgParts,idle.msgLen⟩
  · intro before c st time ticks held _
    exact held.clock time ticks
  · intro before data flags time ticks _ _ live held state _ still
    rw [state] at still ⊢
    have clocked : ((session env before).1.clocked time ticks).killed = false := live
    have same : Held (readCfg env) ((session env before).1.clocked time ticks) := held.clock time ticks
    unfold receive at still ⊢
    split_ifs at still ⊢
    · have read : (msgRead ((session env before).1.clocked time ticks)).killed = false := live
      simp only [violate_alive env _ read] at still
      simp [cut] at still
    · exact same.buffer data
    · apply pump_held nonneg _ still
      exact (same.buffer data).join

/-- A session that has not been cut is within its caps: its buffers, whatever the client
sends, and the counters that stand for them. -/
theorem session_bounds (env : Env) (maxMsg : 0 ≤ (readCfg env).maxMsg)
    (maxHsReads : 0 ≤ (readCfg env).maxHsReads) (maxMsgReads : 0 ≤ (readCfg env).maxMsgReads)
    (callbacks : List Callback) (alive : (session env callbacks).1.killed = false) :
    ((session env callbacks).1.mode = .handshake → HandshakeBounds (readCfg env) (session env callbacks).1) ∧
      ((session env callbacks).1.mode = .ws → MessageBounds (readCfg env) (session env callbacks).1) := by
  refine ⟨session_handshake env maxHsReads callbacks alive,fun ws => ?_⟩
  have waiting := session_waiting env callbacks ws alive
  refine ⟨waiting.length,waiting.short,?_,session_reads env maxMsgReads callbacks ws alive,
    session_holds env maxMsg callbacks ws alive⟩
  rcases frameHeader_need waiting.header with small | ⟨len,small,room⟩
  · exact Or.inl small
  · exact Or.inr (need_room maxMsg small room)

theorem bounds_message :
    HandshakeBounds (readCfg (listener "")) (session (listener "") [sends (upgradeRequest.take 9)]).1 ∧
      MessageBounds (readCfg (listener ""))
        (session (listener "") [sends upgradeRequest,sends [0x01,0x82,0,0,0,0,0x5B,0x5D,0x80]]).1 := by
  have bounds := session_bounds (listener "") (by decide +kernel) (by decide +kernel) (by decide +kernel)
  exact ⟨(bounds [sends (upgradeRequest.take 9)] (by decide +kernel)).1 (by decide +kernel),
    (bounds [sends upgradeRequest,sends [0x01,0x82,0,0,0,0,0x5B,0x5D,0x80]] (by decide +kernel)).2 (by decide +kernel)⟩

end FipsShield.Engine
