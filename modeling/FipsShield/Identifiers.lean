import FipsShield.Limits

/-! The ids that a session has open: the engine's set of them, and the counter kept
beside it, after any run of messages. -/
namespace FipsShield.Engine
open Text FipsShield.Core

def idOf (args : List Json) : Option Str :=
  match args.head? with
  | some (.str sid) => some sid
  | _ => none

def Opening (t : Str) (args : List Json) (sid : Str) : Prop :=
  (t = str "REQ" ∨ t = str "NEG-OPEN") ∧ idOf args = some sid

def Closing (t : Str) (args : List Json) (sid : Str) : Prop :=
  (t = str "CLOSE" ∨ t = str "NEG-CLOSE") ∧ idOf args = some sid

def Opens (buf : Bytes) (sid : Str) : Prop := ∃ t args, said buf = some (t,args) ∧ Opening t args sid

def Closes (buf : Bytes) (sid : Str) : Prop := ∃ t args, said buf = some (t,args) ∧ Closing t args sid

/-- Some message opened the id, and none after it named it to close it. -/
def OpenAfter (messages : List Bytes) (sid : Str) : Prop :=
  ∃ before buf later, messages = before ++ buf::later ∧ Opens buf sid ∧ ∀ other ∈ later, ¬ Closes other sid

theorem openAfter_nil (sid : Str) : ¬ OpenAfter [] sid := by
  rintro ⟨before,buf,later,same,_⟩
  simp at same

theorem openAfter_concat {messages : List Bytes} {buf : Bytes} {sid : Str} :
    OpenAfter (messages ++ [buf]) sid ↔ Opens buf sid ∨ OpenAfter messages sid ∧ ¬ Closes buf sid := by
  constructor
  · rintro ⟨before,opener,later,same,opens,kept⟩
    rcases List.eq_nil_or_concat later with rfl | ⟨rest,last,rfl⟩
    · obtain ⟨_,single⟩ := List.append_inj' same rfl
      exact Or.inl ((List.cons.inj single).1 ▸ opens)
    · rw [List.concat_eq_append,← List.cons_append,← List.append_assoc] at same
      obtain ⟨earlier,single⟩ := List.append_inj' same rfl
      rw [List.concat_eq_append,List.forall_mem_append] at kept
      refine Or.inr ⟨⟨before,opener,rest,earlier,opens,kept.1⟩,?_⟩
      rw [(List.cons.inj single).1]
      exact kept.2 last (by simp)
  · rintro (opens | ⟨⟨before,opener,later,rfl,opens,kept⟩,open'⟩)
    · exact ⟨messages,buf,[],rfl,opens,by simp⟩
    · refine ⟨before,opener,later ++ [buf],by simp,opens,?_⟩
      exact List.forall_mem_append.mpr ⟨kept,List.forall_mem_singleton.mpr open'⟩

/-- The counter is the size of the set, and within the bound as a whole number. -/
structure Sized (cfg : Cfg) (lim : Limits) : Prop where
  nodup : lim.subs.Nodup
  size : lim.subCount = lim.subs.length
  bounded : (lim.subCount : Number) ≤ cfg.maxSubs.ceil

/-- What inspecting a message leaves of a set: the set itself if it is refused, and else
the set with what it opens and without what it closes. -/
structure Updates (cfg : Cfg) (subs : List Str) (opens closes : Str → Prop) (done : Option Violation × Limits) :
    Prop where
  sized : Sized cfg done.2
  refused : done.1 ≠ none → done.2.subs = subs
  accepted : done.1 = none → ∀ sid, sid ∈ done.2.subs ↔ opens sid ∨ sid ∈ subs ∧ ¬ closes sid

section Steps
variable {env : Env} {cfg : Cfg} {lim : Limits} {opens closes : Str → Prop}

theorem Updates.refuses (sized : Sized cfg lim) (v : Violation) : Updates cfg lim.subs opens closes (some v,lim) :=
  ⟨sized,fun _ => rfl,fun accepted => by cases accepted⟩

theorem Updates.keeps (sized : Sized cfg lim) (quiet : ∀ sid, ¬ opens sid ∧ ¬ closes sid) :
    Updates cfg lim.subs opens closes (none,lim) := by
  refine ⟨sized,fun refused => absurd rfl refused,fun _ sid => ?_⟩
  simp [quiet sid]

theorem paying_updates (sized : Sized cfg lim) (meter : Meter) {go : Limits → Option Violation × Limits}
    (later : ∀ other, other.subs = lim.subs → Sized cfg other → Updates cfg lim.subs opens closes (go other)) :
    Updates cfg lim.subs opens closes (paying env lim meter go) := by
  have subs : (charge env lim meter).2.subs = lim.subs := by cases meter <;> rfl
  have subCount : (charge env lim meter).2.subCount = lim.subCount := by cases meter <;> rfl
  have paid : Sized cfg (charge env lim meter).2 := by
    refine ⟨?_,?_,?_⟩
    · rw [subs]
      exact sized.nodup
    · rw [subs,subCount]
      exact sized.size
    · rw [subCount]
      exact sized.bounded
  simp only [paying]
  split_ifs
  · exact later _ subs paid
  · rw [← subs]
    exact .refuses paid _

theorem openSub_updates (number : cfg.maxSubs ≠ .nan) (sized : Sized cfg lim) (sid : Str)
    (own : ∀ other, opens other ↔ other = sid) (quiet : ∀ other, ¬ closes other) :
    Updates cfg lim.subs opens closes (openSub cfg lim sid) := by
  unfold openSub
  split_ifs with known full
  · refine ⟨sized,fun refused => absurd rfl refused,fun _ other => ?_⟩
    simp only [own,quiet,not_false_eq_true,and_true]
    exact (or_iff_right_of_imp fun same => same ▸ known).symm
  · exact .refuses sized _
  · refine ⟨⟨List.nodup_cons.mpr ⟨known,sized.nodup⟩,?_,Number.succ_le_ceil number full⟩,
      fun refused => absurd rfl refused,fun _ other => ?_⟩
    · rw [List.length_cons,sized.size]
    · simp [own,quiet]

theorem closeSub_updates (sized : Sized cfg lim) (sid : Str) (own : ∀ other, closes other ↔ other = sid)
    (quiet : ∀ other, ¬ opens other) : Updates cfg lim.subs opens closes (none,closeSub lim sid) := by
  unfold closeSub
  split_ifs with known
  · have erased : lim.subs.erase sid = lim.subs.filter (· ≠ sid) := by
      rw [sized.nodup.erase_eq_filter sid]
      apply List.filter_congr
      simp [bne,beq_eq_decide]
    refine ⟨⟨sized.nodup.filter _,?_,Number.natCast_le_trans (Nat.sub_le _ 1) sized.bounded⟩,
      fun refused => absurd rfl refused,fun _ other => ?_⟩
    · simp only [← erased,List.length_erase_of_mem known,sized.size]
    · simp [own,quiet]
  · refine ⟨sized,fun refused => absurd rfl refused,fun _ other => ?_⟩
    simp only [own,quiet,false_or]
    refine ⟨fun member => ⟨member,?_⟩,And.left⟩
    rintro rfl
    exact known member

theorem idOf_subscriptionId {args : List Json} {sid : Str} (found : subscriptionId args.head? = some sid) :
    idOf args = some sid := by
  unfold subscriptionId at found
  split at found
  · next text named =>
    split_ifs at found
    cases found
    rw [idOf,named]
  · contradiction

theorem query_updates (number : cfg.maxSubs ≠ .nan) (sized : Sized cfg lim) {t : Str} (args : List Json)
    (filters : List (Option Json)) {opens : Bool}
    (kind : opens = true → t = str "REQ" ∨ t = str "NEG-OPEN")
    (other : opens = false → ¬ (t = str "REQ" ∨ t = str "NEG-OPEN"))
    (stays : ¬ (t = str "CLOSE" ∨ t = str "NEG-CLOSE")) :
    Updates cfg lim.subs (Opening t args) (Closing t args) (query env cfg lim args.head? filters opens) := by
  apply paying_updates sized
  intro paid subs sized
  rw [← subs]
  split
  · exact .refuses sized _
  · next sid found =>
    have named := idOf_subscriptionId found
    split
    · exact .refuses sized _
    · split_ifs with opening
      · apply openSub_updates number sized sid
        · intro name
          simp [Opening,kind opening,named,eq_comm]
        · exact fun name closing => stays closing.1
      · refine .keeps sized fun name => ⟨fun begun => ?_,fun closing => stays closing.1⟩
        exact other (Bool.eq_false_iff.mpr opening) begun.1

theorem close_updates (sized : Sized cfg lim) {t : Str} (args : List Json)
    (kind : t = str "CLOSE" ∨ t = str "NEG-CLOSE") (stays : ¬ (t = str "REQ" ∨ t = str "NEG-OPEN")) :
    Updates cfg lim.subs (Opening t args) (Closing t args) (close lim args) := by
  unfold close
  split
  · next sid named =>
    apply closeSub_updates sized sid
    · intro name
      simp [Closing,kind,idOf,named,eq_comm]
    · exact fun name opening => stays opening.1
  · next unnamed =>
    refine .keeps sized fun name => ⟨fun opening => stays opening.1,fun closing => ?_⟩
    have found := closing.2
    unfold idOf at found
    split at found
    · next sid named => exact unnamed sid named
    · contradiction

theorem event_updates (sized : Sized cfg lim) (args : List Json) (quiet : ∀ sid, ¬ opens sid ∧ ¬ closes sid) :
    Updates cfg lim.subs opens closes (event env cfg lim args) := by
  apply paying_updates sized
  intro paid subs sized
  rw [← subs]
  split
  · split
    · split_ifs
      · exact .refuses sized _
      · exact .keeps sized quiet
    · exact .refuses sized _
  · exact .refuses sized _

/-- The types that open, and those that close, a subscription. -/
theorem kinds_apart {t : Str} : (t = str "REQ" ∨ t = str "NEG-OPEN") → ¬ (t = str "CLOSE" ∨ t = str "NEG-CLOSE") := by
  rintro (rfl | rfl) <;> decide +kernel

theorem quiet_type {t : Str} (args : List Json) (opens : ¬ (t = str "REQ" ∨ t = str "NEG-OPEN"))
    (closes : ¬ (t = str "CLOSE" ∨ t = str "NEG-CLOSE")) (sid : Str) :
    ¬ Opening t args sid ∧ ¬ Closing t args sid :=
  ⟨fun opening => opens opening.1,fun closing => closes closing.1⟩

theorem byType_updates (env : Env) (number : cfg.maxSubs ≠ .nan) (sized : Sized cfg lim) (t : Str) (args : List Json) :
    Updates cfg lim.subs (Opening t args) (Closing t args) (byType env cfg lim t args) := by
  unfold byType
  split_ifs with isEvent isRequest isNegOpen isAuth isClose
  · apply event_updates sized args
    subst isEvent
    exact quiet_type args (by decide +kernel) (by decide +kernel)
  · have stays : ¬ (t = str "CLOSE" ∨ t = str "NEG-CLOSE") := by
      rcases isRequest with rfl | rfl <;> decide +kernel
    refine query_updates number sized args _ ?_ ?_ stays
    · intro opens
      exact Or.inl (of_decide_eq_true opens)
    · intro counts
      rw [isRequest.resolve_left (of_decide_eq_false counts)]
      decide +kernel
  · exact query_updates number sized args _ (fun _ => Or.inr isNegOpen) (by simp) (kinds_apart (Or.inr isNegOpen))
  · subst isAuth
    apply paying_updates sized
    intro paid subs sized
    rw [← subs]
    exact .keeps sized (quiet_type args (by decide +kernel) (by decide +kernel))
  · exact close_updates sized args isClose fun opens => kinds_apart opens isClose
  · refine .keeps sized (quiet_type args ?_ isClose)
    exact not_or.mpr ⟨(not_or.mp isRequest).1,isNegOpen⟩

theorem police_updates (env : Env) (number : cfg.maxSubs ≠ .nan) (sized : Sized cfg lim) (buf : Bytes) :
    Updates cfg lim.subs (Opens buf) (Closes buf) (police env cfg lim buf) := by
  apply paying_updates sized
  intro paid subs sized
  rw [← subs]
  split
  · exact .refuses sized _
  · next msg parsed =>
    split
    · exact .refuses sized _
    · next t args read =>
      have speaks : said buf = some (t,args) := by rw [said,parsed,Option.bind_some,read]
      have opening : Opens buf = Opening t args := by
        funext sid
        simp [Opens,speaks]
      have closing : Closes buf = Closing t args := by
        funext sid
        simp [Closes,speaks]
      rw [opening,closing]
      split_ifs
      · exact byType_updates env number sized t args
      · exact .refuses sized _

end Steps

/-- The engine's set is that of the ids open after the messages accepted so far. -/
structure Tracks (cfg : Cfg) (lim : Limits) (messages : List Bytes) : Prop where
  sized : Sized cfg lim
  members : ∀ sid, sid ∈ lim.subs ↔ OpenAfter messages sid

theorem tracks_polices (env : Env) {cfg : Cfg} (number : cfg.maxSubs ≠ .nan) : Polices env cfg (Tracks cfg) where
  tick _ _ _ _ tracks := ⟨⟨tracks.sized.nodup,tracks.sized.size,tracks.sized.bounded⟩,tracks.members⟩
  police lim messages buf tracks := by
    have updates := police_updates env number tracks.sized buf
    refine ⟨updates.sized,fun sid => ?_⟩
    split_ifs with passed
    · rw [updates.accepted passed,openAfter_concat,tracks.members]
    · rw [updates.refused passed,List.append_nil]
      exact tracks.members sid

/-- After any session the counter is the number of ids in the set, the set is that of the
ids opened by accepted messages and not closed since, and it is within the bound, rounded up. -/
theorem subscriptions_tracked (env : Env) (bound : 0 ≤ (readCfg env).maxSubs) (callbacks : List Callback) :
    (session env callbacks).1.lim.subs.Nodup ∧
      (session env callbacks).1.lim.subCount = (session env callbacks).1.lim.subs.length ∧
      ((session env callbacks).1.lim.subCount : Number) ≤ (readCfg env).maxSubs.ceil ∧
      ∀ sid, sid ∈ (session env callbacks).1.lim.subs ↔ OpenAfter (acceptedMessages (session env callbacks).2) sid := by
  have number : (readCfg env).maxSubs ≠ .nan := by
    intro nan
    rw [nan] at bound
    cases bound
  have initial : Tracks (readCfg env) (filter env (readCfg env)).lim [] := by
    refine ⟨⟨List.nodup_nil,rfl,Number.zero_le_ceil bound⟩,fun sid => ?_⟩
    exact iff_of_false List.not_mem_nil (openAfter_nil sid)
  have tracks := session_limits env (tracks_polices env number) initial callbacks
  exact ⟨tracks.sized.nodup,tracks.sized.size,tracks.sized.bounded,tracks.members⟩

def opening (kind sid : String) : String := "[\"" ++ kind ++ "\",\"" ++ sid ++ "\",\x7b\"kinds\":[1]\x7d]"

def opensInherited : List Callback := [sends upgradeRequest,sends (message (opening "REQ" "toString"))]

theorem subscriptions_inherited :
    ((session (listener "ws_max_subs=2") opensInherited).1.lim.subCount : Number) ≤
        (readCfg (listener "ws_max_subs=2")).maxSubs.ceil ∧
      OpenAfter (acceptedMessages (session (listener "ws_max_subs=2") opensInherited).2) (str "toString") := by
  obtain ⟨_,_,bounded,members⟩ := subscriptions_tracked (listener "ws_max_subs=2") (by decide +kernel) opensInherited
  exact ⟨bounded,(members _).mp (by decide +kernel)⟩

/-- A bound that is no whole number admits one id more than it says. -/
theorem fraction_exceeded : ¬ ∀ env : Env, 0 ≤ (readCfg env).maxSubs → ∀ callbacks,
    ((session env callbacks).1.lim.subCount : Number) ≤ (readCfg env).maxSubs := by
  intro claim
  have exceeded := claim (listener "ws_max_subs=0.5") (by decide +kernel)
    [sends upgradeRequest,sends (message (opening "REQ" "a"))]
  revert exceeded
  decide +kernel

end FipsShield.Engine
