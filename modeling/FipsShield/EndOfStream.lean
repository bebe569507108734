import FipsShield.Buffering

/-! How often the end of the client's stream is passed on by the callback that
carries it. -/
namespace FipsShield.Engine
open Text FipsShield.Core

/-- A send that passes on the end of the stream: by its own option or, where the runtime
gives it the flags of the incoming buffer, because it has none. -/
def Call.ends (inherits : Bool) : Call → Bool
  | .send _ options => options.last.getD inherits
  | _ => false

def ends (inherits : Bool) (calls : List Call) : Nat := calls.countP (Call.ends inherits)

/-- Frames that are held back where a message is open or not: none of them ends it, and
none stands before it. -/
def withheld (isOpen : Bool) : List Frame → Bool
  | [] => true
  | f::fs => if f.control then isOpen && withheld isOpen fs else !f.fin && withheld true fs

/-- When the end is passed on once: the callback brings no bytes, or the session is plain,
or the bytes complete what it waits for; where sends pass the end on by default they must
release nothing besides. -/
def EndsOnce (inherits : Bool) (st : St) (data : Bytes) : Prop :=
  data = [] ∨ match st.mode with
    | .plain => True
    | .handshake => inherits = false ∧ (headerBlockEnd (st.hs ++ data) 0).isSome
    | .ws => st.need ≤ st.acc.length + (st.pendingLen + data.length) ∧
        (inherits = true → withheld st.inMsg (Frame.split (st.acc ++ (st.chunks ++ [data]).flatten)).1 = true)

theorem ends_append (inherits : Bool) (first second : List Call) :
    ends inherits (first ++ second) = ends inherits first + ends inherits second := List.countP_append

theorem ends_inspected (inherits : Bool) (message : Bytes) (accepted : Bool) (calls : List Call) :
    ends inherits (.inspected message accepted::calls) = ends inherits calls := by
  simp [ends,Call.ends]

theorem ends_flushCalls (inherits : Bool) (pending : List Bytes) :
    ends inherits (flushCalls pending) = if inherits then pending.length else 0 := by
  fun_induction flushCalls pending with
  | case1 => simp [ends]
  | case2 raw => cases inherits <;> rfl
  | case3 raw rest _ ih =>
    have first := ends_append inherits [.send raw {}] (flushCalls rest)
    rw [List.singleton_append] at first
    rw [first,ih]
    cases inherits <;> simp [ends,Call.ends,Nat.add_comm]

theorem ends_propagate (inherits : Bool) {st : St} (alive : st.killed = false) :
    ends inherits (propagate ⟨true⟩ st) = 1 := by
  rw [propagate,if_pos (by simp [alive])]
  rfl

section Steps
variable {env : Env} {cfg : Cfg} {st : St} (inherits : Bool)

def Releases (inherits isOpen : Bool) (f : Frame) (done : St × List Call) : Prop :=
  (withheld isOpen [f] = true ∧ done.1.inMsg = (isOpen || !f.control) ∧ ends inherits done.2 = 0) ∨
    (withheld isOpen [f] = false ∧ (ends inherits done.2 = 0 ↔ inherits = false))

theorem flush_ends {pending : List Bytes} (filled : pending ≠ []) :
    ends inherits (flushCalls pending) = 0 ↔ inherits = false := by
  rw [ends_flushCalls]
  cases inherits <;> simp [filled]

theorem takeFrame_ends (alive : st.killed = false) {fin : Bool} {op off len : Nat}
    (still : (takeFrame env cfg st fin op off len).1.killed = false) :
    Releases inherits st.inMsg (frameOf st.acc fin op off len) (takeFrame env cfg st fin op off len) := by
  have held : (hold st (frameEnd off len)).killed = false := alive
  have filled : (hold st (frameEnd off len)).pending ≠ [] := by simp [hold]
  have kind : (frameOf st.acc fin op off len).control = decide (8 ≤ op) := rfl
  have last : (frameOf st.acc fin op off len).fin = fin := rfl
  generalize frameOf st.acc fin op off len = f at kind last ⊢
  simp only [takeFrame] at still ⊢
  split_ifs at still ⊢ with many large
  · rw [violate_alive env cfg held] at still
    simp [cut] at still
  · have control : f.control = true := by simpa [kind] using large
    unfold controlFrame
    split_ifs with opened
    · have waiting : st.inMsg = true := opened
      exact Or.inl ⟨by simp [withheld,control,waiting],by simp [hold,waiting],rfl⟩
    · have closed : st.inMsg = false := by simpa [hold] using opened
      exact Or.inr ⟨by simp [withheld,control,closed],flush_ends inherits filled⟩
  · have data : f.control = false := by simpa [kind] using large
    generalize Frame.unmask (Buffer.slice st.acc off (off + 4))
      (Buffer.slice st.acc (off + 4) (frameEnd off len)) = payload at still ⊢
    unfold dataFrame at still ⊢
    split_ifs at still ⊢ with parts final
    · rw [violate_alive env cfg held] at still
      simp [cut] at still
    · have live : (addPart (hold st (frameEnd off len)) fin len payload).killed = false := alive
      cases found : (police env cfg (addPart (hold st (frameEnd off len)) fin len payload).lim
          (addPart (hold st (frameEnd off len)) fin len payload).msgParts.flatten).1 with
      | some v =>
        rw [complete_rejects env cfg live found] at still
        simp [cut] at still
      | none =>
        rw [complete_accepts env cfg live found]
        refine Or.inr ⟨by simp [withheld,data,last,final],?_⟩
        rw [ends_inspected]
        exact flush_ends inherits filled
    · refine Or.inl ⟨by simp [withheld,data,last,final],?_,rfl⟩
      simp [addPart,data,final]

theorem withheld_cons (isOpen : Bool) (f : Frame) (fs : List Frame) :
    withheld isOpen (f::fs) = (withheld isOpen [f] && withheld (isOpen || !f.control) fs) := by
  cases control : f.control <;> cases isOpen <;> simp [withheld,control]

theorem pump_ends (st : St) (still : (pump env cfg st).1.killed = false) :
    ends inherits (pump env cfg st).2 = 0 ↔
      (inherits = true → withheld st.inMsg (Frame.split st.acc).1 = true) := by
  revert still
  refine pump_rule (motive := fun st done => done.1.killed = false → (ends inherits done.2 = 0 ↔
    (inherits = true → withheld st.inMsg (Frame.split st.acc).1 = true))) ?_ ?_ ?_ ?_ st
  · intro st killed alive
    simp [killed] at alive
  · intro st need _ waits _
    rw [Frame.split_none (frameHeader_incomplete waits)]
    exact iff_of_true rfl fun _ => rfl
  · intro st v alive _ still
    rw [violate_alive env cfg alive] at still
    simp [cut] at still
  · intro st fin op off len alive found ih still
    have taken : (takeFrame env cfg st fin op off len).1.killed = false := by
      by_contra dead
      rw [pump_killed (Bool.eq_true_of_not_eq_false dead)] at still
      exact dead still
    have later := ih still
    rw [Frame.split_some (frameHeader_frame found).2.2,withheld_cons]
    rw [ends_append]
    rw [takeFrame_acc] at later
    rcases takeFrame_ends inherits alive taken with ⟨kept,opened,silent⟩ | ⟨released,sent⟩
    · rw [silent,kept,Nat.zero_add,Bool.true_and,← opened]
      exact later
    · rw [released,Bool.false_and]
      constructor
      · intro none derives
        have quiet := sent.mp (Nat.eq_zero_of_add_eq_zero_right none)
        simp [quiet] at derives
      · intro holds
        cases inherits with
        | true => simp at holds
        | false => rw [sent.mpr rfl,later.mpr (fun derives => by simp at derives)]

theorem receive_ends (live : st.killed = false) (data : Bytes)
    (still : (receive env cfg st data).1.killed = false) :
    ends inherits (finish ⟨true⟩ (receive env cfg st data)).2 = 1 ↔
      st.need ≤ st.acc.length + (st.pendingLen + data.length) ∧
        (inherits = true → withheld st.inMsg (Frame.split (st.acc ++ (st.chunks ++ [data]).flatten)).1 = true) := by
  unfold receive at still ⊢
  split_ifs at still ⊢ with many few
  · rw [violate_alive env cfg (msgRead_alive live)] at still
    simp [cut] at still
  · have short : ¬ st.need ≤ st.acc.length + (st.pendingLen + data.length) := by omega
    simp [finish,ends,short]
  · have enough : st.need ≤ st.acc.length + (st.pendingLen + data.length) := by omega
    have loop := pump_ends inherits (joined (buffered st data)) still
    rw [finish,if_pos rfl,ends_append,ends_propagate inherits still,Nat.add_eq_right,loop]
    exact ⟨fun silent => ⟨enough,silent⟩,fun both => both.2⟩

theorem classify_ends (stop : Nat) (still : (classify env cfg st stop).1.killed = false) :
    ends inherits (finish ⟨true⟩ ((classify env cfg st stop).1,(classify env cfg st stop).2,true)).2 = 1 ↔
      inherits = false := by
  have ended := ends_propagate inherits still
  rw [finish,if_pos rfl,ends_append,ended,Nat.add_eq_right]
  cases asks : upgradeTest (Text.toString (st.hs.take stop)) with
  | true =>
    rw [classify_ws env cfg asks] at still ⊢
    have head := ends_append inherits [.send (fromString (Text.toString (st.hs.take stop))) {}]
      (pump env cfg (upgraded st stop)).2
    rw [List.singleton_append] at head
    rw [head]
    cases inherits with
    | true => simp [ends,Call.ends]
    | false =>
      have silent := (pump_ends false (upgraded st stop) still).mpr (by simp)
      rw [silent]
      exact iff_of_true rfl rfl
  | false =>
    rw [classify_plain env cfg asks]
    split_ifs <;> cases inherits <;> simp [ends,Call.ends]

theorem respond_ends {stream sent : Bytes} (phase : Phase st stream sent) (live : st.killed = false)
    (data : Bytes) (still : (respond env cfg st (.upstream data ⟨true⟩)).1.killed = false) :
    ends inherits (respond env cfg st (.upstream data ⟨true⟩)).2 = 1 ↔ EndsOnce inherits st data := by
  simp only [respond] at still ⊢
  rcases upstream_cases env cfg live data ⟨true⟩ with
    ⟨_,_,time,ticks,rule,detail,cuts⟩ | ⟨plain,sends⟩ | ⟨_,other,time,ticks,reads⟩
  · rw [cuts,violate_alive env cfg (clocked_alive live time ticks)] at still
    simp [cut] at still
  · rw [sends]
    apply iff_of_true rfl
    simp [EndsOnce,plain]
  · rw [reads] at still ⊢
    by_cases empty : data = []
    · have ended : ends inherits (propagate ⟨true⟩ (st.clocked time ticks)) = 1 := ends_propagate inherits live
      apply iff_of_true
      · simpa [finish,read,empty] using ended
      · exact Or.inl empty
    · cases mode : st.mode with
      | plain => exact absurd mode other
      | ws =>
        have received : read env cfg (st.clocked time ticks) data = receive env cfg (st.clocked time ticks) data := by
          rw [read,if_neg empty,if_neg (by simp [St.clocked,mode])]
        rw [received] at still ⊢
        rw [receive_ends inherits (clocked_alive live time ticks) data still]
        simp [EndsOnce,empty,mode,St.clocked]
      | handshake =>
        cases phase with
        | refused killed _ _ _ => simp [live] at killed
        | accepted head accepts => exact absurd mode accepts.mode_ne
        | sniffing sniffs _ =>
          have started := sniffs.clocked time ticks
          have scan : headerBlockEnd ((st.clocked time ticks).hs ++ data) ((st.clocked time ticks).hsScanned - 2) =
              headerBlockEnd (st.hs ++ data) 0 := by
            rw [started.whole,started.all,sniffs.whole]
            exact headerBlockEnd_resume sniffs.nothing data
          have sniffed : read env cfg (st.clocked time ticks) data = handshake env cfg (st.clocked time ticks) data := by
            rw [read,if_neg empty,if_pos started.mode]
          rw [sniffed] at still ⊢
          rcases handshake_cases env cfg data with
            ⟨_,seen,rule,detail,same,_,_,cuts⟩ | ⟨_,found,waits⟩ | ⟨_,stop,found,_,done⟩
          · rw [cuts] at still
            simp [finish,violate_alive env cfg (same.trans started.alive),cut] at still
          · rw [waits]
            apply iff_of_false
            · simp [finish,ends]
            · simp [EndsOnce,empty,mode,← scan,found]
          · rw [done] at still ⊢
            rw [classify_ends inherits stop still]
            simp [EndsOnce,empty,mode,← scan,found]

end Steps

/-- A callback that carries the end of the client's stream and leaves the session alive
passes the end on exactly once if and only if it brings no bytes, or the session is plain, or
its bytes complete what the session waits for. -/
theorem end_once (env : Env) (before : List Callback) (data : Bytes) (inherits : Bool)
    (alive : (session env (before ++ [.upstream data ⟨true⟩])).1.killed = false) :
    ends inherits (respond env (readCfg env) (session env before).1 (.upstream data ⟨true⟩)).2 = 1 ↔
      EndsOnce inherits (session env before).1 data := by
  have live : (session env before).1.killed = false := by
    by_contra dead
    have still := session_stays (Bool.eq_true_of_not_eq_false dead) [.upstream data ⟨true⟩]
    simp [still] at alive
  have phase := session_phase env before
  have step : (session env (before ++ [.upstream data ⟨true⟩])).1 =
      (respond env (readCfg env) (session env before).1 (.upstream data ⟨true⟩)).1 := by
    rw [session_concat]
    rfl
  rw [step] at alive
  exact respond_ends inherits phase live data alive

theorem end_after_head :
    ends false (respond (listener "") (readCfg (listener "")) (session (listener "") []).1
        (.upstream upgradeRequest ⟨true⟩)).2 = 1 :=
  (end_once (listener "") [] upgradeRequest false (by decide +kernel)).mpr (Or.inr ⟨rfl,by decide +kernel⟩)

/-- An end that comes with half a request is not passed on at all. -/
theorem end_in_head :
    (session (listener "") ([] ++ [.upstream (bytes "GET / HTTP/1.1\r\n") ⟨true⟩])).1.killed = false ∧
      ∀ inherits, ends inherits (respond (listener "") (readCfg (listener "")) (session (listener "") []).1
        (.upstream (bytes "GET / HTTP/1.1\r\n") ⟨true⟩)).2 ≠ 1 := by
  decide +kernel

end FipsShield.Engine
