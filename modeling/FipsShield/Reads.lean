import FipsShield.Verdicts

/-! The budget of reads for a message: what the engine counts, what the client's
stream leaves unfinished at the end of each read, and when the two agree. -/
namespace FipsShield.Engine
open Text FipsShield.Core

def bodyOf (stream : Bytes) : Bytes :=
  match headerBlockEnd stream 0 with
  | some stop => stream.drop stop
  | none => []

def messagesIn (stream : Bytes) : List Bytes := (assemble (Frame.split (bodyOf stream)).1).messages

/-- Where the message or frame starts that the body leaves unfinished. -/
def openIn (stream : Bytes) : Option Nat := unfinished (bodyOf stream)

def IsRead (env : Env) (before : List Callback) : Callback → Prop
  | .upstream data _ => data ≠ [] ∧ (session env before).1.mode = .ws
  | .downstream _ _ => False

instance (env : Env) (before : List Callback) (c : Callback) : Decidable (IsRead env before c) := by
  cases c <;> unfold IsRead <;> infer_instance

/-- What is unfinished at the end of each read of an upgraded session. -/
def leftFrom (env : Env) (before : List Callback) : List Callback → List (Option Nat)
  | [] => []
  | c::rest =>
    (if IsRead env before c then [openIn (clientStream (before ++ [c]))] else []) ++
      leftFrom env (before ++ [c]) rest

def leftOpen (env : Env) (callbacks : List Callback) : List (Option Nat) := leftFrom env [] callbacks

/-- A read completes a message, or ends inside a message or frame with no other one
finished in it. -/
def Steady (before after : Bytes) : Prop :=
  (messagesIn before).length < (messagesIn after).length ∨
    ∃ x ∈ openIn after, openIn before = none ∨ openIn before = some x

instance (before after : Bytes) : Decidable (Steady before after) :=
  inferInstanceAs (Decidable (_ ∨ _))

def SteadyReads (env : Env) (callbacks : List Callback) : Prop :=
  ∀ before c later, callbacks = before ++ c::later → IsRead env before c →
    Steady (clientStream before) (clientStream (before ++ [c]))

theorem leftFrom_append (env : Env) (before first second : List Callback) :
    leftFrom env before (first ++ second) = leftFrom env before first ++ leftFrom env (before ++ first) second := by
  induction first generalizing before with
  | nil => simp [leftFrom]
  | cons c rest ih => simp [leftFrom,ih,List.append_assoc]

theorem leftOpen_concat (env : Env) (before : List Callback) (c : Callback) :
    leftOpen env (before ++ [c]) = leftOpen env before ++
      if IsRead env before c then [openIn (clientStream (before ++ [c]))] else [] := by
  simp [leftOpen,leftFrom_append,leftFrom]

theorem steadyReads_concat {env : Env} {before : List Callback} {c : Callback} :
    SteadyReads env (before ++ [c]) ↔ SteadyReads env before ∧
      (IsRead env before c → Steady (clientStream before) (clientStream (before ++ [c]))) :=
  Transducer.places_concat

theorem bodyOf_cut {stream head body : Bytes} (cut : CutHead stream head) (whole : stream = head ++ body) :
    bodyOf stream = body := by
  obtain ⟨stop,found,_,rfl⟩ := cut
  have parted : stream.take stop ++ stream.drop stop = stream.take stop ++ body :=
    (List.take_append_drop stop stream).trans whole
  rw [bodyOf,found]
  exact List.append_cancel_left parted

/-- A live upgraded session has inspected the messages of the body, all of them. -/
theorem session_messages (env : Env) (callbacks : List Callback)
    (ws : (session env callbacks).1.mode = .ws) (alive : (session env callbacks).1.killed = false) :
    inspections (session env callbacks).2 = (messagesIn (clientStream callbacks)).map (·,true) := by
  obtain ⟨head,body,sent,cut,whole,_,flow⟩ := (session_inspecting env callbacks).upgraded ws
  obtain ⟨fs,ready⟩ := (flow.live alive).ready
  have waiting := session_waiting env callbacks ws alive
  have split : (Frame.split body).1 = fs := by
    rw [ready.stream,List.append_assoc _ (session env callbacks).1.acc,Frame.split_whole ready.frames,
      Frame.split_none waiting.incomplete]
    exact List.append_nil fs
  rw [messagesIn,bodyOf_cut cut whole,split]
  exact ready.logged

section Counter
variable (env : Env) (cfg : Cfg) (st : St)

/-- A step that leaves the session alive inspects nothing and counts on, or starts the
count again. -/
def Counts (st : St) (done : St × List Call) : Prop :=
  done.1.killed = false →
    done.1.msgReads = st.msgReads ∧ inspectedBy done.2 = [] ∨ done.1.msgReads = 0

theorem dataFrame_counts (alive : st.killed = false) (fin : Bool) (len : Nat) (payload : Bytes) :
    Counts st (dataFrame env cfg st fin len payload) := by
  unfold dataFrame
  split_ifs with many final
  · intro still
    rw [violate_alive env cfg alive] at still
    simp [cut] at still
  · have live : (addPart st fin len payload).killed = false := alive
    intro still
    cases found : (police env cfg (addPart st fin len payload).lim
        (addPart st fin len payload).msgParts.flatten).1 with
    | none =>
      rw [complete_accepts env cfg live found]
      exact Or.inr rfl
    | some v =>
      rw [complete_rejects env cfg live found] at still
      simp [cut] at still
  · exact fun _ => Or.inl ⟨rfl,rfl⟩

theorem takeFrame_counts (alive : st.killed = false) (fin : Bool) (op off len : Nat) :
    Counts st (takeFrame env cfg st fin op off len) := by
  have held : (hold st (frameEnd off len)).killed = false := alive
  simp only [takeFrame]
  split_ifs
  · intro still
    rw [violate_alive env cfg held] at still
    simp [cut] at still
  · unfold controlFrame
    split_ifs
    · exact fun _ => Or.inl ⟨rfl,rfl⟩
    · exact fun _ => Or.inl ⟨rfl,inspectedBy_flushCalls _⟩
  · exact dataFrame_counts env cfg _ held fin len _

theorem pump_counts : Counts st (pump env cfg st) := by
  refine pump_rule (motive := fun st done => Counts st done) ?_ ?_ ?_ ?_ st
  · intro st _ _
    exact Or.inl ⟨rfl,rfl⟩
  · intro st need _ _ _
    exact Or.inl ⟨rfl,rfl⟩
  · intro st v live _ still
    rw [violate_alive env cfg live] at still
    simp [cut] at still
  · intro st fin op off len live _ ih still
    have taken : (takeFrame env cfg st fin op off len).1.killed = false := by
      by_contra dead
      rw [pump_killed (Bool.eq_true_of_not_eq_false dead)] at still
      exact dead still
    rcases ih still with ⟨same,silent⟩ | reset
    · rcases takeFrame_counts env cfg _ live fin op off len taken with ⟨before,quiet⟩ | reset
      · exact Or.inl ⟨same.trans before,by rw [inspectedBy_append,quiet,silent]; rfl⟩
      · exact Or.inr (same.trans reset)
    · exact Or.inr reset

theorem receive_counts (alive : st.killed = false) (data : Bytes)
    (still : (receive env cfg st data).1.killed = false) :
    (receive env cfg st data).1.msgReads = st.msgReads + 1 ∧ inspectedBy (receive env cfg st data).2.1 = [] ∨
      (receive env cfg st data).1.msgReads = 0 := by
  unfold receive at still ⊢
  split_ifs at still ⊢
  · rw [violate_alive env cfg (msgRead_alive alive)] at still
    simp [cut] at still
  · exact Or.inl ⟨rfl,rfl⟩
  · exact pump_counts env cfg (joined (buffered st data)) still

end Counter

/-- The reads that count so far have all left the same thing unfinished, and it still is. -/
def Stalled (env : Env) (before : List Callback) (reads : Nat) : Prop :=
  ∃ x, List.replicate reads (some x) <:+ leftOpen env before ∧
    (0 < reads → openIn (clientStream before) = some x)

theorem stalled_zero (env : Env) (before : List Callback) : Stalled env before 0 :=
  ⟨0,List.nil_suffix,fun some => absurd some (by decide)⟩

theorem Stalled.idle {env : Env} {before : List Callback} {c : Callback} {reads : Nat}
    (stalled : Stalled env before reads) (silent : c.sent = []) : Stalled env (before ++ [c]) reads := by
  obtain ⟨x,suffix,still⟩ := stalled
  have none : ¬ IsRead env before c := by
    cases c with
    | upstream data flags => exact fun read => read.1 silent
    | downstream data flags => exact id
  refine ⟨x,?_,?_⟩
  · rw [leftOpen_concat,if_neg none,List.append_nil]
    exact suffix
  · rw [clientStream_concat,silent,List.append_nil]
    exact still

theorem Stalled.read {env : Env} {before : List Callback} {c : Callback} {reads : Nat}
    (stalled : Stalled env before reads) (read : IsRead env before c)
    (steady : Steady (clientStream before) (clientStream (before ++ [c])))
    (same : (messagesIn (clientStream before)).length = (messagesIn (clientStream (before ++ [c]))).length) :
    Stalled env (before ++ [c]) (reads + 1) := by
  obtain ⟨x,suffix,still⟩ := stalled
  rcases steady with completes | ⟨y,after,earlier⟩
  · omega
  · refine ⟨y,?_,fun _ => after⟩
    rw [leftOpen_concat,if_pos read,after,List.replicate_succ']
    cases reads with
    | zero => exact List.suffix_append _ _
    | succ reads =>
      have opened := still (Nat.succ_pos reads)
      have equal : x = y := by
        rcases earlier with nothing | whole
        · simp [opened] at nothing
        · exact Option.some.inj (opened.symm.trans whole)
      rw [← equal]
      obtain ⟨front,parted⟩ := suffix
      exact ⟨front,by rw [← parted,List.append_assoc]⟩

/-- In a run of steady reads the count is that of the last reads that left the same
thing unfinished. -/
theorem session_stalled (env : Env) (callbacks : List Callback) (steady : SteadyReads env callbacks)
    (ws : (session env callbacks).1.mode = .ws) (alive : (session env callbacks).1.killed = false) :
    Stalled env callbacks (session env callbacks).1.msgReads := by
  revert steady
  refine upgraded_rule env (P := fun before st => SteadyReads env before → Stalled env before st.msgReads)
    ?_ ?_ ?_ callbacks ws alive
  · intro before c st stop idle _ _ live _
    have none : (pump env (readCfg env) (upgraded st stop)).1.msgReads = 0 := by
      rcases pump_counts env (readCfg env) (upgraded st stop) live with ⟨same,_⟩ | reset
      · exact same.trans idle.msgReads
      · exact reset
    rw [none]
    exact stalled_zero env _
  · intro before c st time ticks earlier silent steady
    exact (earlier (steadyReads_concat.mp steady).1).idle silent
  · intro before data flags time ticks upgraded filled live earlier state logged still steady
    obtain ⟨before_steady,now⟩ := steadyReads_concat.mp steady
    have stalled := earlier before_steady
    have mode : (session env (before ++ [.upstream data flags])).1.mode = .ws := by
      have clocked : ((session env before).1.clocked time ticks).killed = false := live
      rw [state]
      exact (receive_advances env (readCfg env) clocked data).mode.trans upgraded
    rw [state] at still ⊢
    rcases receive_counts env _ ((session env before).1.clocked time ticks) live data still with
      ⟨counted,silent⟩ | reset
    · rw [counted]
      have read : IsRead env before (.upstream data flags) := ⟨filled,upgraded⟩
      apply stalled.read read (now read)
      have first := session_messages env before upgraded live
      have second := session_messages env _ mode (state ▸ still)
      rw [logged,silent,List.append_nil,first] at second
      simpa using congrArg List.length second
    · rw [reset]
      exact stalled_zero env _

theorem mem_verdicts {trace : Trace} {v : Verdict} :
    v ∈ verdicts trace ↔ ∃ direction, (direction,.verdict v) ∈ trace := by
  rw [verdicts,List.mem_filterMap]
  constructor
  · intro found
    obtain ⟨⟨direction,call⟩,member,made⟩ := found
    cases call <;> simp at made
    exact ⟨direction,made ▸ member⟩
  · intro found
    obtain ⟨direction,member⟩ := found
    exact ⟨_,member,rfl⟩

theorem session_verdict {env : Env} {callbacks : List Callback} {v : Verdict}
    (made : v ∈ verdicts (session env callbacks).2) :
    ∃ before c later, callbacks = before ++ c::later ∧ (session env before).1.killed = false ∧
      (session env (before ++ [c])).1.killed = true ∧
      .verdict v ∈ (respond env (readCfg env) (session env before).1 c).2 := by
  induction callbacks using List.reverseRecOn with
  | nil => simp [session,verdicts] at made
  | append_singleton earlier c ih =>
    rw [session_concat,verdicts_append,List.mem_append] at made
    rcases made with old | new
    · obtain ⟨before,first,later,rfl,alive,cut,member⟩ := ih old
      exact ⟨before,first,later ++ [c],by simp,alive,cut,member⟩
    · obtain ⟨direction,member⟩ := mem_verdicts.mp new
      obtain ⟨call,called,same⟩ := List.mem_map.mp member
      cases same
      cases alive : (session env earlier).1.killed with
      | true =>
        rw [respond_killed env _ alive (session_settled env earlier)] at called
        cases c <;> simp at called
      | false =>
        refine ⟨earlier,c,[],rfl,alive,?_,called⟩
        rw [session_concat]
        rcases respond_outcome env (readCfg env) alive c with ⟨_,quiet⟩ | ⟨killed,_⟩
        · have silent := quiet _ called
          simp [Call.quiet] at silent
        · exact killed

/-- A session cut by the read budget was left, by as many reads before as the budget
allows, with one and the same message or frame unfinished. -/
def DripStalled (env : Env) (callbacks : List Callback) : Prop :=
  ∀ v ∈ verdicts (session env callbacks).2, Drip v → ∃ before c later reads x,
    callbacks = before ++ c::later ∧ (session env before).1.killed = false ∧
      (session env (before ++ [c])).1.killed = true ∧
      (readCfg env).maxMsgReads < (reads + 1 : Nat) ∧
      List.replicate reads (some x) <:+ leftOpen env before

theorem SteadyReads.earlier {env : Env} {before later : List Callback}
    (steady : SteadyReads env (before ++ later)) : SteadyReads env before := by
  intro first c rest same
  exact steady first c (rest ++ later) (by simp [same])

theorem leftOpen_starts (env : Env) (before later : List Callback) :
    leftOpen env before <+: leftOpen env (before ++ later) := by
  rw [leftOpen,leftOpen,leftFrom_append]
  exact List.prefix_append _ _

theorem DripStalled.leaves {env : Env} {callbacks : List Callback} (stalls : DripStalled env callbacks)
    (budget : 1 ≤ (readCfg env).maxMsgReads) {v : Verdict} (made : v ∈ verdicts (session env callbacks).2)
    (drips : Drip v) : ∃ x, some x ∈ leftOpen env callbacks := by
  obtain ⟨before,c,later,reads,x,rfl,_,_,exceeds,suffix⟩ := stalls v made drips
  have counted : 1 < reads + 1 := Number.natCast_lt_of_le budget exceeds
  refine ⟨x,(leftOpen_starts env before _).subset (suffix.subset ?_)⟩
  exact List.mem_replicate.mpr ⟨by omega,rfl⟩

/-- In a run of steady reads the session is cut by the read budget only after as many
reads as the budget allows have left one and the same message or frame unfinished; with
a budget of at least one read, never when the reads leave nothing unfinished. -/
theorem drip_stalled (env : Env) (callbacks : List Callback) (steady : SteadyReads env callbacks) :
    DripStalled env callbacks ∧
      (1 ≤ (readCfg env).maxMsgReads → (∀ left ∈ leftOpen env callbacks, left = none) →
        ∀ v ∈ verdicts (session env callbacks).2, ¬ Drip v) := by
  have stalls : DripStalled env callbacks := by
    intro v made drips
    obtain ⟨before,c,later,rfl,alive,cut,member⟩ := session_verdict made
    obtain ⟨data,flags,_,_,ws,exceeds⟩ := respond_drips env (readCfg env) alive member drips
    obtain ⟨x,suffix,_⟩ := session_stalled env before steady.earlier ws alive
    exact ⟨before,c,later,_,x,rfl,alive,cut,exceeds,suffix⟩
  refine ⟨stalls,fun budget finished v made drips => ?_⟩
  obtain ⟨x,left⟩ := stalls.leaves budget made drips
  have nothing := finished _ left
  simp at nothing

theorem drip_two :
    DripStalled (listener "ws_max_msg_reads=1") [sends upgradeRequest,sends [0x81],sends [0x80]] ∧
      (1 ≤ (readCfg (listener "ws_max_msg_reads=1")).maxMsgReads →
        (∀ left ∈ leftOpen (listener "ws_max_msg_reads=1") [sends upgradeRequest,sends [0x81],sends [0x80]],
          left = none) →
        ∀ v ∈ verdicts (session (listener "ws_max_msg_reads=1")
          [sends upgradeRequest,sends [0x81],sends [0x80]]).2, ¬ Drip v) := by
  apply drip_stalled
  have start : SteadyReads (listener "ws_max_msg_reads=1") [] := by
    intro before c later same
    simp at same
  have head := steadyReads_concat.mpr ⟨start,(by decide +kernel :
    IsRead (listener "ws_max_msg_reads=1") [] (sends upgradeRequest) → _)⟩
  have first := steadyReads_concat.mpr ⟨head,(by decide +kernel :
    IsRead (listener "ws_max_msg_reads=1") [sends upgradeRequest] (sends [0x81]) → _)⟩
  exact steadyReads_concat.mpr ⟨first,(by decide +kernel :
    IsRead (listener "ws_max_msg_reads=1") [sends upgradeRequest,sends [0x81]] (sends [0x80]) → _)⟩

def ping : Bytes := framed 0x9 [] true

/-- Three pings, each in its own read, exceed a budget of two. -/
theorem drip_pings :
    ¬ DripStalled (listener "ws_max_msg_reads=2") [sends upgradeRequest,sends ping,sends ping,sends ping] := by
  intro stalls
  have made : ∃ v ∈ verdicts (session (listener "ws_max_msg_reads=2")
      [sends upgradeRequest,sends ping,sends ping,sends ping]).2, Drip v := by
    unfold Drip
    decide +kernel
  obtain ⟨v,made,drips⟩ := made
  obtain ⟨x,left⟩ := stalls.leaves (by decide +kernel) made drips
  have nothing : leftOpen (listener "ws_max_msg_reads=2")
      [sends upgradeRequest,sends ping,sends ping,sends ping] = [none,none,none] := by decide +kernel
  simp [nothing] at left

end FipsShield.Engine
