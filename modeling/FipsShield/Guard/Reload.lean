import FipsShield.Guard.Host

/-! When a reload leaves the bans enforced: a run of `cmd_load` on an interface with a copy of the
classifier, whatever steps of it fail. -/
namespace FipsShield.Guard.Host
open Transducer

/-- The maps that the classifier reads. -/
def reads : List MapName := [.shieldBans,.shieldThrottle,.shieldConfig,.shieldStats]

/-- A copy works on the maps that are pinned. -/
def Reads (h : State) (filter : Filter) : Prop := ∀ name ∈ reads, h.pins name = some (filter name)

instance (h : State) (filter : Filter) : Decidable (Reads h filter) :=
  inferInstanceAs (Decidable (∀ name ∈ reads, h.pins name = some (filter name)))

/-- A copy that works on the pinned maps is attached. -/
def Enforced (h : State) (iface : Str) : Prop := ∃ filter ∈ h.attached iface, Reads h filter

/-- The detachment has left no copy that works on the pinned maps, and no new one was attached
and kept. -/
def Gap (h : State) (events : List Event) : Prop :=
  ∃ left, .detached left ∈ events ∧ (∀ filter ∈ left, ¬ Reads h filter) ∧ (.attached ∈ events → .dropped ∈ events)

/-- No command begins, and nobody else takes the copies away. -/
def Input.undisturbed : Input → Prop
  | .turn _ => True
  | .packet _ _ _ => True
  | _ => False

/-- A load by hand at one interface, on its way and after it; the pins that the classifier reads
stay. -/
def Reloading (ids : Filter) (iface : Str) (m : Machine) (events : List Event) : Prop :=
  Opened m ∧ Reads m.host ids ∧ match m.phase with
  | .creating job _ | .pinning job _ | .verifying job | .adding job | .detaching job =>
    (job.iface = iface ∧ job.watch = false) ∧ Enforced m.host iface ∧
      (∀ left, .detached left ∉ events) ∧ .attached ∉ events ∧ .dropped ∉ events
  | .attaching job =>
    (job.iface = iface ∧ job.watch = false) ∧ (∀ left, .detached left ∈ events ↔ left = m.host.attached iface) ∧
      .attached ∉ events ∧ .dropped ∉ events
  | .taking job =>
    (job.iface = iface ∧ job.watch = false) ∧ (∃ rest, m.host.attached iface = rest ++ [job.opened] ∧
      ∀ left, .detached left ∈ events ↔ left = rest) ∧ .attached ∈ events ∧ .dropped ∉ events
  | .configuring job =>
    (job.iface = iface ∧ job.watch = false) ∧ job.opened ∈ m.host.attached iface ∧ .attached ∈ events ∧ .dropped ∉ events
  | .idle => Enforced m.host iface ↔ ¬ Gap m.host events
  | _ => False

section Reload
variable {ids : Filter} {iface : Str} {m : Machine} {events : List Event}

theorem gap_exit (h : State) (success : Bool) : Gap h (events ++ [.exited success]) ↔ Gap h events := by
  simp [Gap]

/-- At every point of a load the bans are enforced unless there is a gap. -/
theorem Reloading.enforced (reloading : Reloading ids iface m events) : Enforced m.host iface ↔ ¬ Gap m.host events := by
  obtain ⟨phase,h⟩ := m
  obtain ⟨opened,pins,phases⟩ := reloading
  have before (kept : Enforced h iface) (none : ∀ left, .detached left ∉ events) : Enforced h iface ↔ ¬ Gap h events :=
    iff_of_true kept fun ⟨left,detached,_⟩ => none left detached
  cases phase with
  | creating _ _ | pinning _ _ | verifying _ | adding _ | detaching _ => exact before phases.2.1 phases.2.2.1
  | attaching job =>
    obtain ⟨_,detached,none,_⟩ := phases
    simp [Enforced,Gap,detached,none]
  | taking job =>
    obtain ⟨_,⟨rest,listed,_⟩,attached,none⟩ := phases
    have member : job.opened ∈ rest ++ [job.opened] := by simp
    refine iff_of_true ⟨job.opened,listed ▸ member,?_⟩ fun ⟨_,_,_,dropped⟩ => none (dropped attached)
    exact fun name _ => opened job [] rfl name (by simp)
  | configuring job =>
    obtain ⟨_,listed,attached,none⟩ := phases
    refine iff_of_true ⟨job.opened,listed,?_⟩ fun ⟨_,_,_,dropped⟩ => none (dropped attached)
    exact fun name _ => opened job [] rfl name (by simp)
  | idle => exact phases
  | _ => exact phases.elim

theorem step_reads (pins : Reads m.host ids) (x : Input) (loads : ∀ done, m.phase ≠ .unpinning done) :
    Reads (step m x).1.host ids := by
  intro name member
  rcases step_pins m x with ⟨_,_,_,_,host,_⟩ | ⟨done,_,phase,_⟩ | ⟨same,_⟩
  · rw [host]
    exact pin_keeps (pins name member)
  · exact absurd phase (loads done)
  · rw [same]
    exact pins name member

theorem step_reloading (m : Machine) (events : List Event) (x : Input) (undisturbed : x.undisturbed)
    (reloading : Reloading ids iface m events) : Reloading ids iface (step m x).1 (events ++ (step m x).2) := by
  have enforced := reloading.enforced
  obtain ⟨opened,pins,phases⟩ := reloading
  obtain ⟨phase,h⟩ := m
  have loads : ∀ done, phase ≠ .unpinning done := by
    rintro done rfl
    exact phases.elim
  refine ⟨step_opened opened x,step_reads pins x loads,?_⟩
  cases x with
  | start command => exact undisturbed.elim
  | lost other => exact undisturbed.elim
  | packet other skb now =>
    cases listed : h.attached other <;> simp only [step,listed,List.append_nil] <;> exact phases
  | turn t =>
    have stopped (success : Bool) : Enforced h iface ↔ ¬ Gap h (events ++ [.exited success]) := by rwa [gap_exit]
    cases phase with
    | creating job order =>
      by_cases ok : t.ok
      · simpa [step,perform,check,ok] using phases
      · simpa [step,perform,check,ok,exit] using stopped false
    | verifying job =>
      by_cases ok : t.ok
      · simpa [step,perform,check,ok] using phases
      · simpa [step,perform,check,ok,exit] using stopped false
    | adding job => simpa [step,perform] using phases
    | pinning job left =>
      cases left with
      | nil =>
        by_cases ok : t.ok
        · simpa [step,perform,check,ok] using phases
        · simpa [step,perform,check,ok,exit] using stopped false
      | cons name left =>
        by_cases ok : t.ok
        · obtain ⟨owned,⟨filter,listed,works⟩,none⟩ := phases
          simp only [step,perform,ok,Bool.not_true,Bool.false_eq_true,if_false]
          refine ⟨owned,⟨filter,by simpa using listed,?_⟩,by simpa using none⟩
          exact fun name member => pin_keeps (works name member)
        · simpa [step,perform,ok,exit] using stopped false
    | detaching job =>
      obtain ⟨⟨rfl,hand⟩,_,none,unattached,undropped⟩ := phases
      simp only [step,perform,attach_attached]
      exact ⟨⟨trivial,hand⟩,by simp [none],by simp [unattached],by simp [undropped]⟩
    | attaching job =>
      by_cases ok : t.ok
      · obtain ⟨⟨rfl,hand⟩,detached,_,undropped⟩ := phases
        simp only [step,perform,ok,Bool.not_true,Bool.false_eq_true,if_false,attach_attached]
        exact ⟨⟨trivial,hand⟩,⟨h.attached job.iface,rfl,by simp [detached]⟩,by simp,by simp [undropped]⟩
      · simpa [step,perform,ok,exit] using stopped false
    | taking job =>
      obtain ⟨⟨rfl,hand⟩,⟨rest,listed,detached⟩,attached,undropped⟩ := phases
      dsimp only at listed
      by_cases ok : t.ok
      · simp only [step,perform,ok,if_true,List.append_nil]
        have member : job.opened ∈ rest ++ [job.opened] := by simp
        exact ⟨⟨trivial,hand⟩,listed ▸ member,attached,undropped⟩
      · simp only [step,perform,ok,if_false,exit,listed,List.dropLast_concat,Bool.false_eq_true]
        simp [Enforced,Reads,Gap,detached]
    | configuring job =>
      obtain ⟨⟨_,hand⟩,_⟩ := phases
      cases written : setConfig t job.rate job.burst h with
      | none =>
        simp only [step,perform,written,exit]
        exact stopped false
      | some after =>
        obtain rfl := setConfig_some written
        simp only [step,perform,written,hand,Bool.false_eq_true,if_false,exit]
        simpa [Enforced,Reads,Gap] using enforced
    | idle => simpa [step,perform] using phases
    | _ => exact phases.elim

/-- The watchdog at an interface where it finds a copy. -/
def Watching (iface : Str) (m : Machine) (events : List Event) : Prop :=
  Enforced m.host iface ∧ (∀ left, .detached left ∉ events) ∧
    ((∃ order, m.phase = .checking iface order) ∨ m.phase = .beating ∨ m.phase = .idle)

theorem step_watching (m : Machine) (events : List Event) (x : Input) (undisturbed : x.undisturbed)
    (watching : Watching iface m events) : Watching iface (step m x).1 (events ++ (step m x).2) := by
  obtain ⟨enforced,none,phases⟩ := watching
  obtain ⟨phase,h⟩ := m
  cases x with
  | start command => exact undisturbed.elim
  | lost other => exact undisturbed.elim
  | packet other skb now =>
    cases listed : h.attached other <;> simp only [step,listed,List.append_nil] <;> exact ⟨enforced,none,phases⟩
  | turn t =>
    rcases phases with ⟨order,rfl⟩ | rfl | rfl
    · have found : h.attached iface ≠ [] := enforced.elim fun _ copy => List.ne_nil_of_mem copy.1
      by_cases ok : t.ok
      · simp only [step,perform,ok,found,Bool.not_true,Bool.false_eq_true,if_false,ne_eq,not_false_eq_true,if_true,List.append_nil]
        exact ⟨enforced,none,Or.inr (Or.inl rfl)⟩
      · simp only [step,perform,ok,exit]
        exact ⟨enforced,by simpa using none,Or.inr (Or.inr rfl)⟩
    · cases written : writeHeartbeat t h with
      | none =>
        simp only [step,perform,written,exit]
        exact ⟨enforced,by simpa using none,Or.inr (Or.inr rfl)⟩
      | some after =>
        obtain rfl := writeHeartbeat_some written
        simp only [step,perform,written,exit]
        refine ⟨?_,by simpa using none,Or.inr (Or.inr rfl)⟩
        simpa only [Enforced,Reads,put_pins,put_attached] using enforced
    · simp only [step,perform,List.append_nil]
      exact ⟨enforced,none,Or.inr (Or.inr rfl)⟩

/-- At every point of a load on an interface with a copy at work on the pinned maps, whatever steps
of it fail, one is still attached, unless the detachment has left none and no new one was attached
and kept. The watchdog there leaves it alone. -/
theorem reload_enforced_iff {m : Machine} (idle : m.phase = .idle) {iface : Str} (enforced : Enforced m.host iface)
    {inputs : List Input} (undisturbed : ∀ x ∈ inputs, x.undisturbed) (rate burst : UInt64) (order : Order) :
    (Enforced (run step m (.start (.load iface rate burst order)::inputs)).1.host iface ↔
        ¬ Gap (run step m (.start (.load iface rate burst order)::inputs)).1.host
          (run step m (.start (.load iface rate burst order)::inputs)).2) ∧
      Enforced (run step m (.start (.watchdog iface order)::inputs)).1.host iface := by
  obtain ⟨phase,h⟩ := m
  dsimp only at idle
  subst idle
  obtain ⟨ids,listed,works⟩ := enforced
  constructor
  · have began : Reloading ids iface ⟨launch (.load iface rate burst order),h⟩ [] := by
      refine ⟨?_,works,⟨rfl,rfl⟩,⟨ids,listed,works⟩,by simp,by simp,by simp⟩
      intro job left opening
      cases opening
    exact (keeps step_reloading began undisturbed).enforced
  · have began : Watching iface ⟨launch (.watchdog iface order),h⟩ [] :=
      ⟨⟨ids,listed,works⟩,by simp,Or.inl ⟨order,rfl⟩⟩
    exact (keeps step_watching began undisturbed).1

def loaded : Machine := (run step bare (smoothly (.load [] 0 0 inOrder) 13 0)).1

theorem loaded_enforced : Enforced loaded.host [] := ⟨_,List.mem_of_getLast? rfl,by decide⟩

/-- A reload of a guard at work in which the new copy cannot be attached. -/
theorem reload_gap :
    let failed := run step loaded (.start (.load [] 0 0 inOrder)::List.replicate 10 (.turn ⟨true,0,0⟩) ++ [.turn ⟨false,0,0⟩])
    Enforced loaded.host [] ∧ failed.2.getLast? = some (.exited false) ∧ failed.1.host.attached [] = [] ∧
      ¬ Enforced failed.1.host [] := by
  refine ⟨loaded_enforced,rfl,rfl,?_⟩
  rintro ⟨filter,listed,_⟩
  cases listed

/-- A reload that fails while it opens the maps leaves the old copy at work. -/
theorem reload_enforced_unopened :
    Enforced (run step loaded (.start (.load [] 0 0 inOrder)::[.turn ⟨true,0,0⟩,.turn ⟨false,0,0⟩])).1.host [] := by
  refine (reload_enforced_iff rfl loaded_enforced (by simp [Input.undisturbed]) 0 0 inOrder).1.mpr ?_
  have printed : (run step loaded (.start (.load [] 0 0 inOrder)::[.turn ⟨true,0,0⟩,.turn ⟨false,0,0⟩])).2 = [.exited false] := rfl
  rw [printed]
  rintro ⟨left,detached,_⟩
  simp at detached

end Reload
end FipsShield.Guard.Host
