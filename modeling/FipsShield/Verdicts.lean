import FipsShield.Buffering

/-! Where the verdict of the read budget comes from: no check of a message or a frame
makes it, only the count of the reads. -/
namespace FipsShield.Engine
open Text FipsShield.Core

def Drip (v : Verdict) : Prop := v.rule = .frameFlood ∧ v.detail = str "message-drip"

def Undripped (calls : List Call) : Prop := ∀ v, .verdict v ∈ calls → ¬ Drip v

/-- A check that finds something finds no flood of frames. -/
def FindsNoFlood (found : Option Violation) : Prop := ∀ v, found = some v → v.rule ≠ .frameFlood

section Police
variable {env : Env} {cfg : Cfg} {lim : Limits}

theorem findsNoFlood_none : FindsNoFlood none := fun v found => by simp at found

theorem findsNoFlood_some {rule : Rule} (other : rule ≠ .frameFlood) (detail : Str) :
    FindsNoFlood (some ⟨rule,detail⟩) := by
  intro v found
  cases found
  exact other

theorem longText_findsNoFlood (cfg : Cfg) (value : Json) : FindsNoFlood (longText cfg value) := by
  unfold longText
  split
  · split_ifs
    · exact findsNoFlood_some (by decide) _
    · exact findsNoFlood_none
  · exact findsNoFlood_none

theorem longValue_findsNoFlood (cfg : Cfg) (value : Json) : FindsNoFlood (longValue cfg value) := by
  unfold longValue
  split
  · intro v found
    obtain ⟨element,_,long⟩ := List.exists_of_findSome?_eq_some found
    exact longText_findsNoFlood cfg element v long
  · exact longText_findsNoFlood cfg _

theorem checkFilter_rule {filter : Option Json} {v : Violation} (found : checkFilter cfg filter = .error v) :
    v.rule ≠ .frameFlood := by
  unfold checkFilter at found
  split at found
  · next f =>
    simp only at found
    split_ifs at found
    · cases found
      decide
    · split at found
      · next limited =>
        cases found
        unfold overLimit at limited
        split at limited
        · split_ifs at limited
          cases limited
          simp
        · contradiction
      · split at found
        · next long =>
          cases found
          obtain ⟨value,_,long⟩ := List.exists_of_findSome?_eq_some long
          exact longValue_findsNoFlood cfg value _ long
        · contradiction
  · cases found
    decide

theorem filterItems_rule {filters : List (Option Json)} {v : Violation}
    (found : filterItems cfg filters = .error v) : v.rule ≠ .frameFlood := by
  induction filters with
  | nil => contradiction
  | cons first rest ih =>
    rw [filterItems] at found
    split at found
    · next bad =>
      cases found
      exact checkFilter_rule bad
    · split at found
      · next bad =>
        cases found
        exact ih bad
      · contradiction

theorem checkFilters_findsNoFlood (cfg : Cfg) (filters : List (Option Json)) :
    FindsNoFlood (checkFilters cfg filters) := by
  simp only [checkFilters]
  split_ifs
  · exact findsNoFlood_some (by decide) _
  · exact findsNoFlood_some (by decide) _
  · split
    · next bad =>
      intro v found
      cases found
      exact filterItems_rule bad
    · split_ifs
      · exact findsNoFlood_some (by decide) _
      · exact findsNoFlood_none

theorem paying_findsNoFlood (meter : Meter) {go : Limits → Option Violation × Limits}
    (later : ∀ lim, FindsNoFlood (go lim).1) : FindsNoFlood (paying env lim meter go).1 := by
  simp only [paying]
  split_ifs
  · exact later _
  · cases meter <;> exact findsNoFlood_some (by decide) _

theorem query_findsNoFlood (sid : Option Json) (filters : List (Option Json)) (opens : Bool) :
    FindsNoFlood (query env cfg lim sid filters opens).1 := by
  apply paying_findsNoFlood
  intro lim
  split
  · exact findsNoFlood_some (by decide) _
  · split
    · next v bad =>
      intro other found
      cases found
      exact checkFilters_findsNoFlood cfg filters _ bad
    · unfold openSub
      split_ifs
      · exact findsNoFlood_none
      · exact findsNoFlood_some (by decide) _
      · exact findsNoFlood_none
      · exact findsNoFlood_none

theorem byType_findsNoFlood (t : Str) (args : List Json) :
    FindsNoFlood (byType env cfg lim t args).1 := by
  unfold byType
  split_ifs
  · apply paying_findsNoFlood
    intro lim
    split
    · split
      · split_ifs
        · exact findsNoFlood_some (by decide) _
        · exact findsNoFlood_none
      · exact findsNoFlood_some (by decide) _
    · exact findsNoFlood_some (by decide) _
  · exact query_findsNoFlood _ _ _
  · exact query_findsNoFlood _ _ _
  · exact paying_findsNoFlood _ fun lim => findsNoFlood_none
  · unfold close
    split <;> exact findsNoFlood_none
  · exact findsNoFlood_none

theorem police_findsNoFlood (buf : Bytes) : FindsNoFlood (police env cfg lim buf).1 := by
  apply paying_findsNoFlood
  intro lim
  split
  · exact findsNoFlood_some (by decide) _
  · split
    · exact findsNoFlood_some (by decide) _
    · split_ifs
      · exact byType_findsNoFlood _ _
      · exact findsNoFlood_some (by decide) _

end Police

section Verdicts
variable (env : Env) (cfg : Cfg) {st : St}

theorem Undripped.append {first second : List Call} (one : Undripped first) (two : Undripped second) :
    Undripped (first ++ second) := by
  intro v member
  exact (List.mem_append.mp member).elim (one v) (two v)

theorem Undripped.quiet {calls : List Call} (quiet : ∀ call ∈ calls, call.quiet) : Undripped calls := by
  intro v member
  have silent := quiet _ member
  simp [Call.quiet] at silent

theorem violate_undripped {rule : Rule} {detail : Str}
    (other : ¬ (rule = .frameFlood ∧ detail = str "message-drip")) :
    Undripped (violate env cfg st rule detail).2 := by
  unfold violate
  split_ifs
  · intro v member
    simp at member
  · intro v member
    rw [closing_eq] at member
    simp only [List.mem_cons,Call.verdict.injEq,reduceCtorEq,List.not_mem_nil,or_false] at member
    rw [member]
    exact other

theorem inspect_undripped (buf : Bytes) : Undripped (inspect env cfg st buf).2 := by
  cases found : (police env cfg st.lim buf).1 with
  | none =>
    rw [inspect_accepts found]
    exact .quiet (quiet_inspected buf true)
  | some v =>
    rw [inspect_rejects found]
    have rule := police_findsNoFlood buf v found
    exact .append (.quiet (quiet_inspected buf false)) (violate_undripped env cfg (fun drip => rule drip.1))

theorem complete_undripped : Undripped (complete env cfg st).2 := by
  simp only [complete]
  split_ifs
  · exact inspect_undripped env cfg _
  · exact (inspect_undripped env cfg _).append (.quiet (flushCalls_quiet _))

private theorem labelled_first {label : String} {first : UInt16} {rest : Str} (starts : str label = first::rest)
    (apart : first ≠ 0x6D) (n : Number) : labelled label n ≠ str "message-drip" := by
  intro same
  have head := congrArg List.head? same
  rw [labelled,starts] at head
  exact apart (Option.some.inj head)

theorem takeFrame_undripped (fin : Bool) (op off len : Nat) :
    Undripped (takeFrame env cfg st fin op off len).2 := by
  have pending (n : Number) : labelled "pending=" n ≠ str "message-drip" :=
    labelled_first (show str "pending=" = 0x70::str "ending=" by decide +kernel) (by decide) n
  have fragments (n : Number) : labelled "fragments=" n ≠ str "message-drip" :=
    labelled_first (show str "fragments=" = 0x66::str "ragments=" by decide +kernel) (by decide) n
  simp only [takeFrame]
  split_ifs
  · exact violate_undripped env cfg (fun drip => pending _ drip.2)
  · unfold controlFrame
    split_ifs
    · exact .quiet (by simp)
    · exact .quiet (flushCalls_quiet _)
  · unfold dataFrame
    split_ifs
    · exact violate_undripped env cfg (fun drip => fragments _ drip.2)
    · exact complete_undripped env cfg
    · exact .quiet (by simp)

theorem frameHeader_refuse {inMsg : Bool} {msgLen : Nat} {acc : Bytes} {v : Violation}
    (refuses : frameHeader cfg inMsg msgLen acc = .refuse v) : v.rule ≠ .frameFlood := by
  simp only [frameHeader] at refuses
  split_ifs at refuses
  · cases refuses
    decide
  · cases refuses
    decide
  · split at refuses
    · contradiction
    · next field =>
      cases refuses
      simp only [lengthField] at field
      split_ifs at field
      cases field
      decide
    · split at refuses
      · next bad =>
        cases refuses
        unfold refused at bad
        split_ifs at bad <;> cases bad <;> simp
      · split_ifs at refuses

theorem pump_undripped : Undripped (pump env cfg st).2 := by
  refine pump_rule (motive := fun _ done => Undripped done.2) ?_ ?_ ?_ ?_ st
  · intro st _
    exact .quiet (by simp)
  · intro st need _ _
    exact .quiet (by simp)
  · intro st v _ refuses
    have rule := frameHeader_refuse cfg refuses
    exact violate_undripped env cfg (fun drip => rule drip.1)
  · intro st fin op off len _ _ ih
    exact (takeFrame_undripped env cfg fin op off len).append ih

theorem classify_undripped (stop : Nat) : Undripped (classify env cfg st stop).2 := by
  simp only [classify]
  split_ifs
  · exact Undripped.append (.quiet (quiet_send _ _)) (pump_undripped env cfg)
  · exact .quiet (by simp [Call.quiet])
  · exact .quiet (by simp [Call.quiet])

theorem handshake_undripped (data : Bytes) : Undripped (handshake env cfg st data).2.1 := by
  unfold handshake
  split_ifs
  · exact violate_undripped env cfg (fun drip => by simp at drip)
  · exact violate_undripped env cfg (fun drip => by simp at drip)
  · split
    · exact .quiet (by simp)
    · split_ifs
      · exact violate_undripped env cfg (fun drip => by simp at drip)
      · exact classify_undripped env cfg _

theorem propagate_quiet (flags : Flags) (st : St) : ∀ call ∈ propagate flags st, call.quiet := by
  unfold propagate
  split_ifs <;> simp [Call.quiet]

theorem respond_drips (alive : st.killed = false) {c : Callback} {v : Verdict}
    (member : .verdict v ∈ (respond env cfg st c).2) (drips : Drip v) :
    ∃ data flags, c = .upstream data flags ∧ data ≠ [] ∧ st.mode = .ws ∧
      cfg.maxMsgReads < (st.msgReads + 1 : Nat) := by
  have undripped {calls : List Call} (none : Undripped calls) (made : .verdict v ∈ calls) : False :=
    none v made drips
  cases c with
  | downstream data flags =>
    simp only [respond,downstream] at member
    split_ifs at member
    · exact (undripped (violate_undripped env cfg (fun drip => by simp at drip)) member).elim
    · exact (undripped (.quiet (quiet_send _ _)) member).elim
    · exact (undripped (.quiet (quiet_send _ _)) member).elim
  | upstream data flags =>
    obtain ⟨time,ticks,same⟩ := banCheck_state env cfg st
    simp only [respond,upstream,onData,alive,Bool.false_eq_true,if_false] at member
    cases answer : (banCheck env cfg st).1 with
    | error e =>
      simp only [answer] at member
      exact (undripped (violate_undripped env cfg (fun drip => by simp at drip)) member).elim
    | ok banned =>
      cases banned with
      | true =>
        simp only [answer] at member
        exact (undripped (violate_undripped env cfg (fun drip => by simp at drip)) member).elim
      | false =>
        simp only [answer,same] at member
        split_ifs at member with plain
        · exact (undripped (.quiet (quiet_send _ _)) member).elim
        · have read : Call.verdict v ∈ (read env cfg (st.clocked time ticks) data).2.1 := by
            unfold finish at member
            split_ifs at member
            · exact (List.mem_append.mp member).resolve_right fun last =>
                undripped (.quiet (propagate_quiet flags _)) last
            · exact member
          unfold Engine.read at read
          split_ifs at read with empty sniffing
          · simp at read
          · exact (undripped (handshake_undripped env cfg data) read).elim
          · have ws : st.mode = .ws := by
              cases mode : st.mode with
              | handshake => exact absurd mode sniffing
              | ws => rfl
              | plain => exact absurd mode plain
            refine ⟨data,flags,rfl,empty,ws,?_⟩
            unfold receive at read
            split_ifs at read with many few
            · exact many
            · simp at read
            · exact (undripped (pump_undripped env cfg) read).elim

end Verdicts

end FipsShield.Engine
