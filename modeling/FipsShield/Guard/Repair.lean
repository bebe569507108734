import FipsShield.Guard.Purge

/-! The throttle across a repair by the watchdog: read, passed on to `cmd_load` and written back. -/
namespace FipsShield.Guard.Host
open Transducer

/-- Storing it again changes nothing. -/
def Normal (cfg : Config) : Prop := stored cfg.ratePps cfg.burstPkts = cfg

/-- Every map of the throttle's configuration holds what `set_config` may store. -/
def AllNormal (h : State) : Prop := ∀ id, Normal (h.content .shieldConfig id)

theorem stored_normal (rate burst : UInt64) : Normal (stored rate burst) := by
  simp only [Normal,stored]
  split_ifs with none again
  · exact absurd again.2 (by decide)
  · rfl
  · rfl

theorem blank_normal : Normal ⟨0,0⟩ := rfl

/-! ## Whole histories -/

section Histories
variable {m : Machine} {h : State}

theorem put_normal (normal : AllNormal h) {cfg : Config} (again : Normal cfg) : AllNormal (h.put .shieldConfig cfg) := by
  intro id
  unfold State.put
  split
  · exact normal id
  · next held _ =>
    by_cases own : id = held
    · subst own
      simpa using again
    · simpa [Function.update_of_ne own] using normal id

theorem put_others_normal (normal : AllNormal h) {name : MapName} (apart : .shieldConfig ≠ name) (value : Content name) :
    AllNormal (h.put name value) := by
  intro id
  unfold State.put
  split
  · exact normal id
  · simpa [Function.update_of_ne apart] using normal id

theorem pin_normal (normal : AllNormal h) (name : MapName) : AllNormal (h.pin name) := by
  intro id
  unfold State.pin
  split
  · exact normal id
  · by_cases own : name = .shieldConfig
    · subst own
      by_cases next : id = h.next
      · subst next
        simp only [Function.update_self]
        exact blank_normal
      · simpa [Function.update_of_ne next] using normal id
    · simpa [Function.update_of_ne (Ne.symm own)] using normal id

theorem perform_normal (t : Turn) (normal : AllNormal h) (phase : Phase) : AllNormal (perform t h phase).1.host := by
  have turned := perform_turned t h phase
  generalize perform t h phase = done at turned ⊢
  obtain ⟨next,events⟩ := done
  cases turned with
  | pinned job name left => exact pin_normal normal name
  | unpinned | kept | attached => exact normal
  | configured _ rate burst => exact put_normal normal (stored_normal rate burst)
  | wrote _ other value => exact put_others_normal normal other.symm value

theorem classify_content (filter : Filter) (skb : Packet) (now : UInt64) (h : State) :
    (classify filter skb now h).content .shieldConfig = h.content .shieldConfig := by
  simp [classify]

theorem step_normal (m : Machine) (x : Input) (normal : AllNormal m.host) : AllNormal (step m x).1.host := by
  obtain ⟨phase,h⟩ := m
  cases x with
  | turn t => exact perform_normal t normal phase
  | start command => cases phase <;> exact normal
  | lost iface => exact normal
  | packet iface skb now =>
    cases listed : h.attached iface with
    | nil => simpa only [step,listed] using normal
    | cons filter rest =>
      simp only [step,listed,AllNormal,classify_content]
      exact normal

end Histories

/-! ## The repair -/

/-- The configuration could not be read, was not that of no throttle, and was written over. -/
def Reset (cfg : Config) (events : List Event) : Prop := .read false ∈ events ∧ cfg ≠ ⟨0,0⟩ ∧ .configured ∈ events

/-- What the watchdog passes on to `cmd_load` is what it read, or no throttle. -/
def Passes (cfg : Config) (job : Job) (events : List Event) : Prop :=
  job.watch = true ∧ .configured ∉ events ∧
    (.read false ∉ events ∧ job.rate = cfg.ratePps ∧ job.burst = cfg.burstPkts ∨
      .read false ∈ events ∧ job.rate = 0 ∧ job.burst = 0)

/-- A run of the watchdog, on its way and after it. -/
def Repairing (cfg : Config) (m : Machine) (events : List Event) : Prop :=
  match m.phase with
  | .checking _ _ | .reading _ _ =>
    m.host.get .shieldConfig = some cfg ∧ .read false ∉ events ∧ .configured ∉ events
  | .creating job _ | .pinning job _ | .verifying job | .adding job | .detaching job | .attaching job | .taking job
  | .configuring job => m.host.get .shieldConfig = some cfg ∧ Passes cfg job events
  | .rechecking _ | .beating | .idle => m.host.get .shieldConfig = some cfg ↔ ¬ Reset cfg events
  | _ => False

section Repair
variable {cfg : Config} {m : Machine} {events : List Event}

theorem Repairing.kept (repairing : Repairing cfg m events) : m.host.get .shieldConfig = some cfg ↔ ¬ Reset cfg events := by
  obtain ⟨phase,h⟩ := m
  cases phase with
  | checking _ _ | reading _ _ => exact iff_of_true repairing.1 fun reset => repairing.2.2 reset.2.2
  | creating _ _ | pinning _ _ | verifying _ | adding _ | detaching _ | attaching _ | taking _ | configuring _ =>
    exact iff_of_true repairing.1 fun reset => repairing.2.2.1 reset.2.2
  | rechecking _ | beating | idle => exact repairing
  | _ => exact repairing.elim

theorem get_pinned {h : State} {name : MapName} {value : Content name} (held : h.get name = some value) :
    ∃ id, h.pins name = some id := by
  obtain ⟨id,pinned,_⟩ := Option.map_eq_some_iff.mp held
  exact ⟨id,pinned⟩

/-- What is written back is what was read, if anything was. -/
theorem setConfig_passes (normal : Normal cfg) {job : Job} (passes : Passes cfg job events) {t : Turn} {h after : State}
    (held : h.get .shieldConfig = some cfg) (written : setConfig t job.rate job.burst h = some after) :
    after.get .shieldConfig = some cfg ↔ ¬ (.read false ∈ events ∧ cfg ≠ ⟨0,0⟩) := by
  obtain ⟨id,pinned⟩ := get_pinned held
  rw [setConfig_some written,put_get pinned,Option.some.injEq]
  obtain ⟨_,_,⟨known,rate,burst⟩ | ⟨unknown,rate,burst⟩⟩ := passes
  · rw [rate,burst]
    exact iff_of_true normal fun reset => known reset.1
  · have none : stored 0 0 = ⟨0,0⟩ := rfl
    rw [rate,burst,none]
    simp [unknown,eq_comm]

theorem step_repairing (normal : Normal cfg) (m : Machine) (events : List Event) (x : Input) (going : x.continues)
    (repairing : Repairing cfg m events) : Repairing cfg (step m x).1 (events ++ (step m x).2) := by
  have kept := repairing.kept
  obtain ⟨phase,h⟩ := m
  cases x with
  | start command => exact going.elim
  | lost iface =>
    simp only [step,List.append_nil]
    exact repairing
  | packet iface skb now =>
    have same (filter : Filter) : (classify filter skb now h).get .shieldConfig = h.get .shieldConfig := by
      simp only [State.get,classify_pins,classify_content]
    cases listed : h.attached iface with
    | nil => simpa only [step,listed,List.append_nil] using repairing
    | cons filter rest =>
      simp only [step,listed,List.append_nil,Repairing,same]
      exact repairing
  | turn t =>
    have stopped (success : Bool) : h.get .shieldConfig = some cfg ↔ ¬ Reset cfg (events ++ [.exited success]) := by
      simpa [Reset] using kept
    have beaten {after : State} (written : writeHeartbeat t h = some after) :
        after.get .shieldConfig = h.get .shieldConfig := by
      rw [writeHeartbeat_some written]
      exact put_get_ne (by decide) _
    have checked {next : Phase} (goes : Repairing cfg ⟨next,h⟩ events) :
        Repairing cfg (check t h next).1 (events ++ (check t h next).2) := by
      unfold check
      split_ifs
      · simpa using goes
      · exact stopped false
    cases phase with
    | idle => simpa [step,perform] using repairing
    | checking iface order =>
      obtain ⟨held,unread,unset⟩ := repairing
      by_cases ok : t.ok
      · simp only [step,perform,ok,Bool.not_true,Bool.false_eq_true,if_false]
        split_ifs
        · simpa [Repairing] using kept
        · simpa [Repairing] using ⟨held,unread,unset⟩
      · simpa [step,perform,ok,exit,Repairing] using stopped false
    | reading iface order =>
      obtain ⟨held,unread,unset⟩ := repairing
      by_cases ok : t.ok
      · simp only [step,perform,ok,if_true,held]
        refine ⟨held,rfl,by simpa using unset,Or.inl ⟨by simpa using unread,rfl,rfl⟩⟩
      · simp only [step,perform,ok,Bool.false_eq_true,if_false]
        exact ⟨held,rfl,by simpa using unset,Or.inr ⟨by simp,rfl,rfl⟩⟩
    | creating job order => exact checked repairing
    | verifying job => exact checked repairing
    | adding job => simpa [step,perform,Repairing] using repairing
    | detaching job =>
      obtain ⟨held,watch,unset,passes⟩ := repairing
      simp only [step,perform]
      exact ⟨held,watch,by simpa using unset,by simpa using passes⟩
    | pinning job left =>
      cases left with
      | nil => exact checked repairing
      | cons name left =>
        obtain ⟨held,watch,unset,passes⟩ := repairing
        obtain ⟨id,pinned⟩ := get_pinned held
        simp only [step,perform]
        split_ifs
        · exact stopped false
        · refine ⟨(pin_get pinned).trans held,watch,by simpa using unset,?_⟩
          simp only [List.mem_append,List.mem_singleton,reduceCtorEq,or_false]
          exact passes
    | attaching job =>
      obtain ⟨held,watch,unset,passes⟩ := repairing
      simp only [step,perform]
      split_ifs
      · exact stopped false
      · exact ⟨held,watch,by simpa using unset,by simpa using passes⟩
    | taking job =>
      simp only [step,perform]
      split_ifs
      · simp only [List.append_nil]
        exact repairing
      · simpa [exit,Repairing,Reset,State.get] using kept
    | configuring job =>
      obtain ⟨held,passes⟩ := repairing
      cases written : setConfig t job.rate job.burst h with
      | none =>
        simp only [step,perform,written]
        exact stopped false
      | some after =>
        simp only [step,perform,written,passes.1,if_true,Repairing]
        have stored := setConfig_passes normal passes held written
        simpa [Reset] using stored
    | rechecking iface =>
      simp only [step,perform]
      split_ifs
      · exact stopped false
      · simpa [Repairing] using kept
      · exact stopped false
    | beating =>
      cases written : writeHeartbeat t h with
      | none =>
        simp only [step,perform,written]
        exact stopped false
      | some after =>
        simp only [step,perform,written,exit,Repairing,beaten written]
        exact stopped true
    | _ => exact repairing.elim

theorem run_normal {start : Machine} (normal : AllNormal start.host) (history : List Input) :
    AllNormal (run step start history).1.host := by
  induction history generalizing start with
  | nil => exact normal
  | cons x rest ih =>
    rw [run_cons]
    exact ih (step_normal start x normal)

/-- After any history of commands a run of the watchdog leaves the throttle as it was exactly
unless it could not read it and wrote that of none over it. -/
theorem repair_keeps_iff {start : Machine} (normal : AllNormal start.host) {history : List Input}
    (rest : (run step start history).1.phase = .idle) {cfg : Config}
    (held : (run step start history).1.host.get .shieldConfig = some cfg) (iface : Str) (order : Order)
    {during : List Input} (going : ∀ x ∈ during, x.continues) :
    let repaired := run step (run step start history).1 (.start (.watchdog iface order)::during)
    repaired.1.host.get .shieldConfig = some cfg ↔ ¬ Reset cfg repaired.2 := by
  intro repaired
  obtain ⟨id,pinned,same⟩ := Option.map_eq_some_iff.mp held
  have again : Normal cfg := same ▸ run_normal normal history id
  have began : Repairing cfg ⟨.checking iface order,(run step start history).1.host⟩ [] := ⟨held,by simp,by simp⟩
  have done := keeps (step_repairing again) began going
  have runs : repaired = run step ⟨.checking iface order,(run step start history).1.host⟩ during := by
    simp only [repaired,run_cons,step,rest,launch,List.nil_append]
  rw [runs]
  exact done.kept

/-- The guard with a throttle of 500 packets a second and a burst of 100, gone from its interface. -/
def throttled : List Input := smoothly (.load [] 0 0 inOrder) 13 0 ++ smoothly (.throttle 500 100) 1 0 ++ [.lost []]

/-- The watchdog cannot read the throttle, attaches the classifier again and turns the throttle off. -/
theorem repair_resets :
    let before := run step bare throttled
    let repaired := run step before.1 (.start (.watchdog [] inOrder)::.turn ⟨true,0,0⟩::.turn ⟨false,0,0⟩::
      List.replicate 15 (.turn ⟨true,0,9⟩))
    before.1.host.get .shieldConfig = some ⟨500,100⟩ ∧ repaired.2.getLast? = some (.exited true) ∧
      (repaired.1.host.attached []).length = 1 ∧ repaired.1.host.get .shieldConfig = some ⟨0,0⟩ := ⟨rfl,rfl,rfl,rfl⟩

theorem repair_keeps_throttled :
    (run step (run step bare throttled).1 (smoothly (.watchdog [] inOrder) 17 9)).1.host.get .shieldConfig = some ⟨500,100⟩ := by
  have normal : AllNormal bare.host := fun _ => blank_normal
  have logged : (run step (run step bare throttled).1 (smoothly (.watchdog [] inOrder) 17 9)).2 =
      .read true::MapName.all.map .pinned ++ [.detached [],.attached,.configured,.exited true] := rfl
  refine (repair_keeps_iff normal rfl rfl [] inOrder (by simp [Input.continues])).mpr ?_
  rintro ⟨unread,_⟩
  have absent : Event.read false ∉ .read true::MapName.all.map .pinned ++ [.detached [],.attached,.configured,.exited true] := by
    simp
  exact absent (logged ▸ unread)

end Repair
end FipsShield.Guard.Host
