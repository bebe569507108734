import FipsShield.Stream

/-! What a whole session makes of its limits: they change only where a message is
inspected and where the clock is read. -/
namespace FipsShield.Engine
open Text FipsShield.Core

def said (buf : Bytes) : Option (Str × List Json) := (Json.parse (Text.toString buf)).bind asMessage

def acceptedBy (calls : List Call) : List Bytes := ((inspectedBy calls).filter Prod.snd).map Prod.fst

@[simp] theorem acceptedBy_append (first second : List Call) :
    acceptedBy (first ++ second) = acceptedBy first ++ acceptedBy second := by
  simp [acceptedBy]

theorem acceptedMessages_calls (direction : Direction) (calls : List Call) :
    acceptedMessages (calls.map (Prod.mk direction)) = acceptedBy calls := by
  rw [acceptedMessages,inspections_calls,acceptedBy]

theorem acceptedBy_flushCalls (pending : List Bytes) : acceptedBy (flushCalls pending) = [] := by
  rw [acceptedBy,inspectedBy_flushCalls]
  rfl

theorem acceptedBy_propagate (flags : Flags) (st : St) : acceptedBy (propagate flags st) = [] := by
  unfold propagate
  split_ifs <;> rfl

theorem Inspected.messages {body sent : Bytes} {log : List (Bytes × Bool)}
    (inspected : Inspected body sent log) :
    (log.filter Prod.snd).map Prod.fst = (assemble (Frame.split sent).1).messages := by
  obtain ⟨rejected,_,logged⟩ := inspected.logged
  simp [logged,List.filter_map,Function.comp_def]

/-- A relation between the limits and the messages accepted that readings of the clock
and inspections keep. -/
structure Polices (env : Env) (cfg : Cfg) (P : Limits → List Bytes → Prop) : Prop where
  tick : ∀ lim messages ticks, lim.ticks ≤ ticks → P lim messages → P {lim with ticks} messages
  police : ∀ lim messages buf, P lim messages → P (police env cfg lim buf).2
    (messages ++ if (police env cfg lim buf).1 = none then [buf] else [])

def LimitsAfter (P : Limits → List Bytes → Prop) (messages : List Bytes) (done : St × List Call) : Prop :=
  P done.1.lim (messages ++ acceptedBy done.2)

section Steps
variable {env : Env} {cfg : Cfg} {P : Limits → List Bytes → Prop} {messages : List Bytes}

theorem LimitsAfter.silent {st : St} (holds : P st.lim messages) {calls : List Call}
    (silent : acceptedBy calls = []) : LimitsAfter P messages (st,calls) := by
  rw [LimitsAfter,silent,List.append_nil]
  exact holds

theorem LimitsAfter.then {first second : St × List Call} (one : LimitsAfter P messages first)
    (other : ∀ messages, P first.1.lim messages → LimitsAfter P messages second) :
    LimitsAfter P messages (second.1,first.2 ++ second.2) := by
  have both := other _ one
  simpa [LimitsAfter] using both

section Police
variable (rules : Polices env cfg P) (st : St)
include rules

theorem violate_limits (holds : P st.lim messages) (rule : Rule) (detail : Str) :
    LimitsAfter P messages (violate env cfg st rule detail) := by
  unfold violate
  split_ifs
  · exact .silent holds rfl
  · apply LimitsAfter.silent (rules.tick _ _ (st.lim.ticks + 1) (Nat.le_succ _) holds)
    rw [acceptedBy,(forwardedBy_closing _ _).2]
    rfl

theorem inspect_limits (holds : P st.lim messages) (buf : Bytes) :
    LimitsAfter P messages (inspect env cfg st buf) := by
  have after := rules.police st.lim messages buf holds
  cases found : (police env cfg st.lim buf).1 with
  | none =>
    rw [if_pos found] at after
    rw [inspect_accepts found]
    exact after
  | some v =>
    rw [if_neg (by simp [found]),List.append_nil] at after
    rw [inspect_rejects found]
    exact violate_limits rules (st.limited _) after v.rule v.detail

theorem complete_limits (holds : P st.lim messages) : LimitsAfter P messages (complete env cfg st) := by
  have seen := inspect_limits rules (newMessage st) holds st.msgParts.flatten
  simp only [complete]
  split_ifs
  · exact seen
  · exact seen.then fun messages holds => .silent holds (acceptedBy_flushCalls _)

theorem dataFrame_limits (holds : P st.lim messages) (fin : Bool) (len : Nat) (payload : Bytes) :
    LimitsAfter P messages (dataFrame env cfg st fin len payload) := by
  unfold dataFrame
  split_ifs
  · exact violate_limits rules _ holds _ _
  · exact complete_limits rules (addPart st fin len payload) holds
  · exact .silent holds rfl

theorem takeFrame_limits (holds : P st.lim messages) (fin : Bool) (op off len : Nat) :
    LimitsAfter P messages (takeFrame env cfg st fin op off len) := by
  simp only [takeFrame]
  split_ifs
  · exact violate_limits rules (hold st (frameEnd off len)) holds _ _
  · unfold controlFrame
    split_ifs
    · exact .silent holds rfl
    · exact .silent holds (acceptedBy_flushCalls _)
  · exact dataFrame_limits rules (hold st (frameEnd off len)) holds fin len _

theorem pump_limits (holds : P st.lim messages) : LimitsAfter P messages (pump env cfg st) := by
  refine pump_rule (motive := fun st done => ∀ messages, P st.lim messages → LimitsAfter P messages done)
    ?_ ?_ ?_ ?_ st messages holds
  · intro st _ messages holds
    exact .silent holds rfl
  · intro st need _ _ messages holds
    exact .silent holds rfl
  · intro st v _ _ messages holds
    exact violate_limits rules _ holds _ _
  · intro st fin op off len _ _ ih messages holds
    exact (takeFrame_limits rules st holds fin op off len).then ih

theorem classify_limits (holds : P st.lim messages) (stop : Nat) :
    LimitsAfter P messages (classify env cfg st stop) := by
  simp only [classify]
  split_ifs
  · exact pump_limits rules (upgraded st stop) holds
  · exact .silent holds rfl
  · exact .silent holds rfl

theorem read_limits (holds : P st.lim messages) (data : Bytes) :
    LimitsAfter P messages ((read env cfg st data).1,(read env cfg st data).2.1) := by
  unfold read handshake receive
  split_ifs with empty sniffing many large
  · exact .silent holds rfl
  · exact violate_limits rules {st with hsReads := st.hsReads + 1} holds _ _
  · exact violate_limits rules {st with hs := st.hs ++ data,hsReads := st.hsReads + 1} holds _ _
  · split
    · exact .silent holds rfl
    · split_ifs
      · exact violate_limits rules (scanned st data) holds _ _
      · exact classify_limits rules (scanned st data) holds _
  · exact violate_limits rules (msgRead st) holds _ _
  · exact .silent holds rfl
  · exact pump_limits rules (joined (buffered st data)) holds

theorem upstream_limits (holds : P st.lim messages) (data : Bytes) (flags : Flags) :
    LimitsAfter P messages (upstream env cfg st data flags) := by
  cases alive : st.killed with
  | true =>
    rw [upstream_killed env cfg alive]
    exact .silent holds rfl
  | false =>
    by_cases plain : st.mode = .plain
    · have sends : upstream env cfg st data flags = (st,[.send data flags.options]) := by
        simp [upstream,onData,alive,banCheck_plain env cfg plain,plain]
      rw [sends]
      exact .silent holds rfl
    · obtain ⟨time,ticks,same⟩ := banCheck_state env cfg st
      have later := banCheck_ticks env cfg st
      rw [same] at later
      have clocked : P (st.clocked time ticks).lim messages := rules.tick _ _ ticks later holds
      rw [upstream_answered env cfg alive plain,same]
      split
      · exact violate_limits rules _ clocked _ _
      · exact violate_limits rules _ clocked _ _
      · have after := read_limits rules _ clocked data
        unfold finish
        split_ifs
        · simpa [LimitsAfter,acceptedBy_propagate] using after
        · exact after

theorem downstream_limits (holds : P st.lim messages) (data : Bytes) (flags : Flags) :
    LimitsAfter P messages (downstream env cfg st data flags) := by
  simp only [downstream]
  split_ifs
  · exact violate_limits rules (latched st) holds _ _
  · exact .silent holds rfl
  · exact .silent holds rfl

end Police
end Steps

/-- What holds of the limits at the start, and is kept by the clock and by inspections,
holds after every session, of the messages it has accepted. -/
theorem session_limits (env : Env) {P : Limits → List Bytes → Prop}
    (rules : Polices env (readCfg env) P) (initial : P (filter env (readCfg env)).lim [])
    (callbacks : List Callback) :
    P (session env callbacks).1.lim (acceptedMessages (session env callbacks).2) := by
  refine session_rule (P := fun _ st trace => P st.lim (acceptedMessages trace)) initial ?_ callbacks
  intro before st trace c holds
  rw [acceptedMessages_append,acceptedMessages_calls]
  cases c with
  | upstream data flags => exact upstream_limits rules st holds data flags
  | downstream data flags => exact downstream_limits rules st holds data flags

end FipsShield.Engine
