import FipsShield.Buffering

/-! The frame loop on a state that holds more of the stream: it does all it did
before, then goes on. -/
namespace FipsShield.Engine
open Text FipsShield.Core

/-- A state that differs for the frame loop only in having more bytes. -/
structure Extends (more : Bytes) (a b : St) : Prop where
  acc : b.acc = a.acc ++ more
  pending : b.pending = a.pending
  msgParts : b.msgParts = a.msgParts
  msgLen : b.msgLen = a.msgLen
  inMsg : b.inMsg = a.inMsg
  lim : b.lim = a.lim
  killed : b.killed = a.killed

def Alike (more : Bytes) (one other : St × List Call) : Prop :=
  Extends more one.1 other.1 ∧ other.2 = one.2

section Steps
variable (env : Env) (cfg : Cfg) {more : Bytes} {a b : St}

theorem violate_alike (longer : Extends more a b) (rule : Rule) (detail : Str) :
    Alike more (violate env cfg a rule detail) (violate env cfg b rule detail) := by
  unfold violate
  rw [longer.killed]
  split_ifs
  · exact ⟨longer,rfl⟩
  · refine ⟨⟨longer.acc,rfl,rfl,longer.msgLen,longer.inMsg,?_,rfl⟩,?_⟩
    · simp only [cut,longer.lim]
    · simp only [verdictOf,longer.lim]

theorem inspect_alike (longer : Extends more a b) (buf : Bytes) :
    Alike more (inspect env cfg a buf) (inspect env cfg b buf) := by
  have limited (lim : Limits) : Extends more (a.limited lim) (b.limited lim) :=
    ⟨longer.acc,longer.pending,longer.msgParts,longer.msgLen,longer.inMsg,rfl,longer.killed⟩
  have same : police env cfg b.lim buf = police env cfg a.lim buf := by rw [longer.lim]
  cases found : (police env cfg a.lim buf).1 with
  | none =>
    rw [inspect_accepts found,inspect_accepts (same ▸ found),same]
    exact ⟨limited _,rfl⟩
  | some v =>
    obtain ⟨left,calls⟩ := violate_alike env cfg (limited (police env cfg a.lim buf).2) v.rule v.detail
    rw [inspect_rejects found,inspect_rejects (same ▸ found),same]
    exact ⟨left,by rw [calls]⟩

theorem flush_alike (longer : Extends more a b) : Alike more (flush a) (flush b) := by
  refine ⟨⟨longer.acc,rfl,longer.msgParts,longer.msgLen,longer.inMsg,longer.lim,longer.killed⟩,?_⟩
  simp only [flush,longer.pending]

theorem complete_alike (longer : Extends more a b) :
    Alike more (complete env cfg a) (complete env cfg b) := by
  have fresh : Extends more (newMessage a) (newMessage b) :=
    ⟨longer.acc,longer.pending,rfl,rfl,longer.inMsg,longer.lim,longer.killed⟩
  obtain ⟨seen,calls⟩ := inspect_alike env cfg fresh a.msgParts.flatten
  obtain ⟨released,sent⟩ := flush_alike seen
  simp only [complete,longer.msgParts,seen.killed]
  split_ifs
  · exact ⟨seen,calls⟩
  · exact ⟨released,by rw [calls,sent]⟩

theorem dataFrame_alike (longer : Extends more a b) (fin : Bool) (len : Nat) (payload : Bytes) :
    Alike more (dataFrame env cfg a fin len payload) (dataFrame env cfg b fin len payload) := by
  have added : Extends more (addPart a fin len payload) (addPart b fin len payload) := by
    refine ⟨longer.acc,longer.pending,?_,?_,rfl,longer.lim,longer.killed⟩
    · simp only [addPart,longer.msgParts]
    · simp only [addPart,longer.msgLen]
  simp only [dataFrame,longer.msgParts]
  split_ifs
  · exact violate_alike env cfg longer _ _
  · exact complete_alike env cfg added
  · exact ⟨added,rfl⟩

theorem takeFrame_alike (longer : Extends more a b) (fin : Bool) (op : Nat) {off len : Nat}
    (whole : frameEnd off len ≤ a.acc.length) :
    Alike more (takeFrame env cfg a fin op off len) (takeFrame env cfg b fin op off len) := by
  have inside : off + 4 ≤ a.acc.length := by
    unfold frameEnd at whole
    omega
  have held : Extends more (hold a (frameEnd off len)) (hold b (frameEnd off len)) := by
    refine ⟨?_,?_,longer.msgParts,longer.msgLen,longer.inMsg,longer.lim,longer.killed⟩
    · simp only [hold,longer.acc]
      exact List.drop_append_of_le_length whole
    · simp only [hold,longer.acc,longer.pending,Buffer.slice_append a.acc more 0 _ whole]
  have key : Buffer.slice b.acc off (off + 4) = Buffer.slice a.acc off (off + 4) := by
    rw [longer.acc,Buffer.slice_append a.acc more off _ inside]
  have payload : Buffer.slice b.acc (off + 4) (frameEnd off len) =
      Buffer.slice a.acc (off + 4) (frameEnd off len) := by
    rw [longer.acc,Buffer.slice_append a.acc more (off + 4) _ whole]
  simp only [takeFrame,key,payload,held.pending]
  split_ifs
  · exact violate_alike env cfg held _ _
  · simp only [controlFrame,held.inMsg]
    split_ifs
    · exact ⟨held,rfl⟩
    · exact flush_alike held
  · exact dataFrame_alike env cfg held fin len _

/-- The loop is cut all the same, or it does what it did and goes on from there. -/
theorem pump_more (longer : Extends more a b) :
    ((pump env cfg a).1.killed = true ∧ (pump env cfg b).1.killed = true ∧
        (pump env cfg b).2 = (pump env cfg a).2) ∨
      ((pump env cfg a).1.killed = false ∧ ∃ mid, Extends more (pump env cfg a).1 mid ∧
        pump env cfg b = ((pump env cfg mid).1,(pump env cfg a).2 ++ (pump env cfg mid).2)) := by
  refine pump_rule (motive := fun a done => ∀ b, Extends more a b →
    (done.1.killed = true ∧ (pump env cfg b).1.killed = true ∧ (pump env cfg b).2 = done.2) ∨
      (done.1.killed = false ∧ ∃ mid, Extends more done.1 mid ∧
        pump env cfg b = ((pump env cfg mid).1,done.2 ++ (pump env cfg mid).2))) ?_ ?_ ?_ ?_ a b longer
  · intro a killed b longer
    have dead : b.killed = true := longer.killed.trans killed
    rw [pump_killed dead]
    exact Or.inl ⟨killed,dead,rfl⟩
  · intro a need alive _ b longer
    refine Or.inr ⟨alive,b,?_,rfl⟩
    exact ⟨longer.acc,longer.pending,longer.msgParts,longer.msgLen,longer.inMsg,longer.lim,longer.killed⟩
  · intro a v alive refuses b longer
    have refuses' : frameHeader cfg b.inMsg b.msgLen b.acc = .refuse v := by
      rw [longer.inMsg,longer.msgLen,longer.acc,frameHeader_append (by simp [refuses]),refuses]
    have live : b.killed = false := longer.killed.trans alive
    rw [pump_refuse live refuses']
    obtain ⟨_,calls⟩ := violate_alike env cfg longer v.rule v.detail
    refine Or.inl ⟨?_,?_,calls⟩
    · rw [violate_alive env cfg alive]
      rfl
    · rw [violate_alive env cfg live]
      rfl
  · intro a fin op off len alive found ih b longer
    have found' : frameHeader cfg b.inMsg b.msgLen b.acc = .frame fin op off len := by
      rw [longer.inMsg,longer.msgLen,longer.acc,frameHeader_append (by simp [found]),found]
    have live : b.killed = false := longer.killed.trans alive
    obtain ⟨taken,calls⟩ := takeFrame_alike env cfg longer fin op (frameHeader_frame found).1
    rw [pump_frame live found',calls]
    rcases ih _ taken with ⟨dead,dead',same⟩ | ⟨still,mid,later,same⟩
    · exact Or.inl ⟨dead,dead',by rw [same]⟩
    · refine Or.inr ⟨still,mid,later,?_⟩
      rw [same,List.append_assoc]

theorem pump_alike (longer : Extends [] a b) :
    (pump env cfg b).2 = (pump env cfg a).2 ∧ (pump env cfg b).1.killed = (pump env cfg a).1.killed ∧
      ((pump env cfg a).1.killed = false → Extends [] (pump env cfg a).1 (pump env cfg b).1) := by
  rcases pump_more env cfg longer with ⟨dead,dead',calls⟩ | ⟨alive,mid,same,rest⟩
  · exact ⟨calls,dead'.trans dead.symm,fun alive => by simp [dead] at alive⟩
  · have waits : frameHeader cfg mid.inMsg mid.msgLen mid.acc = .wait (pump env cfg a).1.need := by
      rw [same.inMsg,same.msgLen,same.acc,List.append_nil]
      exact pump_waits env cfg a alive
    rw [rest,pump_wait (same.killed.trans alive) waits]
    refine ⟨List.append_nil _,same.killed,fun _ => ?_⟩
    exact ⟨same.acc,same.pending,same.msgParts,same.msgLen,same.inMsg,same.lim,same.killed⟩

end Steps

end FipsShield.Engine
