import FipsShield.Guard.Host

/-! What `fips-guard unload --purge` leaves of the pinned maps, over whole histories of commands. -/
namespace FipsShield.Guard.Host
open Transducer

/-- All but the beginning of a command. -/
def Input.continues : Input → Prop
  | .start _ => False
  | _ => True

/-- All but the beginning of a command and a packet. -/
def Input.quiet : Input → Prop
  | .turn _ => True
  | .lost _ => True
  | _ => False

/-! ## Before the purge -/

/-- What a history leaves of the heartbeat's pin and, if it began with no copy attached, of the
copies that it has attached itself. -/
structure Known (start m : Machine) (events : List Event) : Prop where
  opened : Opened m
  health : m.host.pins .shieldHealth = none ↔ start.host.pins .shieldHealth = none ∧ .pinned .shieldHealth ∉ events
  own : (∀ iface, start.host.attached iface = []) → ∀ iface, m.host.attached iface ≠ [] → m.host.pins .shieldHealth ≠ none

section Before
variable {start m : Machine} {events : List Event}

theorem purged_health {done : Nat} {name : MapName} (listed : purged[done]? = some name) : name ≠ .shieldHealth := by
  rintro rfl
  exact absurd (List.mem_of_getElem? listed) (by decide)

theorem step_health (m : Machine) (x : Input) : (step m x).1.host.pins .shieldHealth = none ↔
    m.host.pins .shieldHealth = none ∧ .pinned .shieldHealth ∉ (step m x).2 := by
  rcases step_pins m x with ⟨job,name,left,_,host,_,events⟩ | ⟨done,name,_,listed,next,events⟩ | ⟨same,none⟩
  · rw [host,events]
    by_cases own : name = .shieldHealth
    · subst own
      obtain ⟨id,held⟩ := @pin_self m.host .shieldHealth
      simp [held]
    · rw [pin_others (Ne.symm own)]
      simp [Ne.symm own]
  · rw [next,events]
    have apart : MapName.shieldHealth ≠ name := (purged_health listed).symm
    simp [State.unpin,Function.update_of_ne apart]
  · rw [same]
    simp [none]

theorem attach_fewer {h : State} {iface other : Str} {filters : List Filter} (fewer : filters ≠ [] → h.attached other ≠ [])
    (after : (h.attach other filters).attached iface ≠ []) : h.attached iface ≠ [] := by
  by_cases own : iface = other
  · subst own
    rw [attach_attached] at after
    exact fewer after
  · simpa [State.attach,Function.update_of_ne own] using after

theorem perform_attached {t : Turn} {h : State} {phase : Phase} {iface : Str}
    (after : (perform t h phase).1.host.attached iface ≠ []) :
    h.attached iface ≠ [] ∨ ∃ job, phase = .attaching job := by
  have turned := perform_turned t h phase
  generalize perform t h phase = done at turned after
  obtain ⟨next,events⟩ := done
  cases turned with
  | pinned | configured | wrote => exact Or.inl (by simpa using after)
  | unpinned | kept => exact Or.inl after
  | attached _ other filters fewer =>
    by_cases own : iface = other
    · subst own
      rw [attach_attached] at after
      exact fewer after
    · exact Or.inl (by simpa [State.attach,Function.update_of_ne own] using after)

theorem step_attached {x : Input} {iface : Str} (after : (step m x).1.host.attached iface ≠ []) :
    m.host.attached iface ≠ [] ∨ ∃ job, m.phase.opening = some (job,[]) := by
  obtain ⟨phase,h⟩ := m
  cases x with
  | turn t =>
    rcases perform_attached after with before | ⟨job,rfl⟩
    · exact Or.inl before
    · exact Or.inr ⟨job,rfl⟩
  | start command => cases phase <;> exact Or.inl after
  | packet other skb now =>
    refine Or.inl ?_
    cases listed : h.attached other <;> simpa [step,listed] using after
  | lost other => exact Or.inl (attach_fewer (fun some' => absurd rfl some') after)

theorem step_known (m : Machine) (events : List Event) (x : Input) (_ : True) (known : Known start m events) :
    Known start (step m x).1 (events ++ (step m x).2) := by
  obtain ⟨opened,health,own⟩ := known
  refine ⟨step_opened opened x,?_,?_⟩
  · rw [step_health,health,List.mem_append,not_or,and_assoc]
  · intro bare iface after none
    have before := ((step_health m x).mp none).1
    rcases step_attached after with attached | ⟨job,opening⟩
    · exact own bare iface attached before
    · have held := opened job [] opening .shieldHealth (by simp)
      cases before.symm.trans held

theorem run_known (idle : start.phase = .idle) (history : List Input) :
    Known start (run step start history).1 (run step start history).2 := by
  have initial : Known start start [] := by
    refine ⟨?_,by simp,fun bare iface attached => absurd (bare iface) attached⟩
    intro job left opening
    rw [idle] at opening
    cases opening
  exact keeps step_known initial fun _ _ => trivial

end Before

/-! ## The purge -/

/-- A purge on its way, and after it: it succeeds only where a copy was attached. -/
def Purging (bare kept : Prop) (m : Machine) (events : List Event) : Prop :=
  (m.host.pins .shieldHealth = none ↔ kept) ∧ match m.phase with
  | .unloading iface purge => purge = true ∧ .exited true ∉ events ∧ (bare → m.host.attached iface ≠ [] → ¬ kept)
  | .unpinning done => .exited true ∉ events ∧ (bare → ¬ kept) ∧ ∀ name ∈ purged.take done, m.host.pins name = none
  | .idle => .exited true ∈ events → (bare → ¬ kept) ∧ ∀ name ∈ purged, m.host.pins name = none
  | _ => False

section Purge
variable {bare kept : Prop} {m : Machine} {events : List Event}

theorem take_succ {done : Nat} {name : MapName} (listed : purged[done]? = some name) :
    purged.take (done + 1) = purged.take done ++ [name] := by
  rw [List.take_add_one,listed]
  rfl

theorem unpin_none {h : State} {name other : MapName} (gone : h.pins other = none) : (h.unpin name).pins other = none := by
  by_cases own : other = name
  · subst own
    exact Function.update_self _ _ _
  · exact (Function.update_of_ne own _ _).trans gone

theorem step_purging (m : Machine) (events : List Event) (x : Input) (going : x.continues)
    (purging : Purging bare kept m events) : Purging bare kept (step m x).1 (events ++ (step m x).2) := by
  obtain ⟨health,phases⟩ := purging
  obtain ⟨phase,h⟩ := m
  cases x with
  | start command => exact going.elim
  | lost iface =>
    refine ⟨health,?_⟩
    simp only [step,List.append_nil]
    cases phase with
    | unloading other purge =>
      obtain ⟨purges,going',copies⟩ := phases
      exact ⟨purges,going',fun none' some' => copies none' (attach_fewer (fun left => absurd rfl left) some')⟩
    | _ => exact phases
  | packet iface skb now =>
    refine ⟨?_,?_⟩
    · cases listed : h.attached iface <;> simpa [step,listed] using health
    · cases listed : h.attached iface <;> simpa [step,listed] using phases
  | turn t =>
    cases phase with
    | idle => exact ⟨health,by simpa [step,perform] using phases⟩
    | unloading iface purge =>
      obtain ⟨rfl,going',copies⟩ := phases
      refine ⟨?_,?_⟩
      · simp only [step,perform,exit]
        split_ifs <;> exact health
      · simp only [step,perform,exit]
        split_ifs with kept' failed
        · cases kept'
        · simp [going']
        · refine ⟨by simpa using going',fun none' => copies none' ?_,by simp⟩
          intro none
          rw [none] at failed
          exact failed rfl
    | unpinning done =>
      obtain ⟨going',source,gone⟩ := phases
      cases listed : purged[done]? with
      | none =>
        refine ⟨by simpa [step,perform,listed,exit] using health,?_⟩
        simp only [step,perform,listed,exit]
        have all : purged.length ≤ done := List.getElem?_eq_none_iff.mp listed
        rw [List.take_of_length_le all] at gone
        exact fun _ => ⟨source,gone⟩
      | some name =>
        have apart : MapName.shieldHealth ≠ name := (purged_health listed).symm
        by_cases absent : h.pins name = none
        · refine ⟨by simpa [step,perform,listed,absent] using health,?_⟩
          simp only [step,perform,listed,absent,if_true,List.append_nil]
          refine ⟨going',source,?_⟩
          rw [take_succ listed]
          intro other member
          rcases List.mem_append.mp member with before | single
          · exact gone other before
          · rwa [List.mem_singleton.mp single]
        · by_cases ok : t.ok
          · refine ⟨by simpa [step,perform,listed,absent,ok,State.unpin,Function.update_of_ne apart] using health,?_⟩
            simp only [step,perform,listed,absent,ok,if_true,if_false,List.append_nil]
            refine ⟨going',source,?_⟩
            rw [take_succ listed]
            intro other member
            rcases List.mem_append.mp member with before | single
            · exact unpin_none (gone other before)
            · rw [List.mem_singleton.mp single]
              exact Function.update_self _ _ _
          · refine ⟨by simpa [step,perform,listed,absent,ok,exit] using health,?_⟩
            simp [step,perform,listed,absent,ok,exit,going']
    | _ => exact phases.elim

theorem run_purging {during : List Input} (going : ∀ x ∈ during, x.continues) (purging : Purging bare kept m []) :
    Purging bare kept (run step m during).1 (run step m during).2 := keeps step_purging purging going

end Purge

/-! ## The next load -/

/-- The host of a fresh install, with the throttle that was asked for. -/
structure Fresh (cfg : Config) (h : State) : Prop where
  bans : h.get .shieldBans = some ∅
  throttle : h.get .shieldThrottle = some ∅
  stats : h.get .shieldStats = some fun _ => 0
  config : h.get .shieldConfig = some cfg
  health : ∃ last, h.get .shieldHealth = some last ∧ ∀ maxAge now readable, cmdHealth maxAge now readable last = .unknown

/-- What is pinned is as it was created. -/
def Untouched (h : State) : Prop := ∀ name id, h.pins name = some id → h.content name id = blank name

/-- The run of `cmd_load` in a phase of it. -/
def Phase.loading : Phase → Option Job
  | .creating job _ | .pinning job _ | .verifying job | .adding job | .detaching job | .attaching job | .taking job
  | .configuring job => some job
  | _ => none

/-- A load by hand into a directory with nothing pinned, on its way and after it. -/
structure Loading (rate burst : UInt64) (m : Machine) (events : List Event) : Prop where
  opened : Opened m
  either : m.phase = .idle ∧ (.exited true ∈ events → Fresh (stored rate burst) m.host) ∨
    (∃ job, m.phase.loading = some job ∧ job.watch = false ∧ job.rate = rate ∧ job.burst = burst) ∧
      .exited true ∉ events ∧ Untouched m.host

section Load
variable {rate burst : UInt64} {m : Machine} {events : List Event}

theorem pin_untouched {h : State} (untouched : Untouched h) (name : MapName) : Untouched (h.pin name) := by
  intro other id held
  unfold State.pin at held ⊢
  split at held
  · exact untouched other id held
  · next free =>
    by_cases own : other = name
    · subst own
      have same : h.next = id := by simpa using held
      simp [same]
    · have before : h.pins other = some id := (Function.update_of_ne own _ _).symm.trans held
      simpa [Function.update_of_ne own] using untouched other id before

theorem get_untouched {h : State} (untouched : Untouched h) {name : MapName} {id : Nat} (held : h.pins name = some id) :
    h.get name = some (blank name) := by
  rw [State.get,held,Option.map_some,untouched name id held]

theorem put_fresh {h : State} (untouched : Untouched h) (pinned : ∀ name, ∃ id, h.pins name = some id) (cfg : Config) :
    Fresh cfg (h.put .shieldConfig cfg) := by
  have others (name : MapName) (apart : name ≠ .shieldConfig) : (h.put .shieldConfig cfg).get name = some (blank name) := by
    obtain ⟨id,held⟩ := pinned name
    rw [put_get_ne apart,get_untouched untouched held]
  obtain ⟨id,held⟩ := pinned .shieldConfig
  refine ⟨others _ (by decide),others _ (by decide),others _ (by decide),put_get held cfg,?_⟩
  refine ⟨0,others _ (by decide),?_⟩
  intro maxAge now readable
  simp [cmdHealth]

theorem Fresh.attach {cfg : Config} {h : State} (fresh : Fresh cfg h) (iface : Str) (filters : List Filter) :
    Fresh cfg (h.attach iface filters) := ⟨fresh.bans,fresh.throttle,fresh.stats,fresh.config,fresh.health⟩

/-- A load that goes on, or ends in failure, is still one into a directory as created. -/
theorem perform_loading {t : Turn} {h : State} {phase : Phase} {job : Job} (loading : phase.loading = some job)
    (hand : job.watch = false) (opened : Opened ⟨phase,h⟩) (untouched : Untouched h) :
    ((perform t h phase).1.phase = .idle ∧
        (.exited true ∈ (perform t h phase).2 → Fresh (stored job.rate job.burst) (perform t h phase).1.host)) ∨
      (∃ later, (perform t h phase).1.phase.loading = some later ∧ later.watch = false ∧ later.rate = job.rate ∧
        later.burst = job.burst) ∧ .exited true ∉ (perform t h phase).2 ∧ Untouched (perform t h phase).1.host := by
  have checked {next : Phase} (same : next.loading = some job) :
      ((check t h next).1.phase = .idle ∧
          (.exited true ∈ (check t h next).2 → Fresh (stored job.rate job.burst) (check t h next).1.host)) ∨
        (∃ later, (check t h next).1.phase.loading = some later ∧ later.watch = false ∧ later.rate = job.rate ∧
          later.burst = job.burst) ∧ .exited true ∉ (check t h next).2 ∧ Untouched (check t h next).1.host := by
    by_cases ok : t.ok
    · exact Or.inr (by simp [check,ok,same,hand,untouched])
    · exact Or.inl (by simp [check,ok,exit])
  cases phase with
  | creating _ _ | verifying _ =>
    obtain rfl := Option.some.inj loading
    exact checked rfl
  | pinning _ left =>
    obtain rfl := Option.some.inj loading
    cases left with
    | nil => exact checked rfl
    | cons name left =>
      by_cases ok : t.ok
      · refine Or.inr ?_
        simp only [perform,ok,Bool.not_true,Bool.false_eq_true,if_false]
        exact ⟨⟨_,rfl,hand,rfl,rfl⟩,by simp,pin_untouched untouched name⟩
      · exact Or.inl (by simp [perform,ok,exit])
  | adding _ =>
    obtain rfl := Option.some.inj loading
    exact Or.inr ⟨⟨_,rfl,hand,rfl,rfl⟩,by simp [perform],untouched⟩
  | detaching _ =>
    obtain rfl := Option.some.inj loading
    exact Or.inr ⟨⟨_,rfl,hand,rfl,rfl⟩,by simp [perform],untouched⟩
  | attaching _ =>
    obtain rfl := Option.some.inj loading
    by_cases ok : t.ok
    · refine Or.inr ?_
      simp only [perform,ok,Bool.not_true,Bool.false_eq_true,if_false]
      exact ⟨⟨_,rfl,hand,rfl,rfl⟩,by simp,untouched⟩
    · exact Or.inl (by simp [perform,ok,exit])
  | taking _ =>
    obtain rfl := Option.some.inj loading
    by_cases ok : t.ok
    · refine Or.inr ?_
      simp only [perform,ok,if_true]
      exact ⟨⟨_,rfl,hand,rfl,rfl⟩,by simp,untouched⟩
    · exact Or.inl (by simp [perform,ok,exit])
  | configuring _ =>
    obtain rfl := Option.some.inj loading
    refine Or.inl ?_
    have pinned (name : MapName) : ∃ id, h.pins name = some id := ⟨_,opened _ [] rfl name (by simp)⟩
    simp only [perform]
    cases written : setConfig t _ _ h with
    | none => simp [exit]
    | some after =>
      simp only [hand,Bool.false_eq_true,if_false,exit]
      refine ⟨trivial,fun _ => ?_⟩
      rw [setConfig_some written]
      exact put_fresh untouched pinned _
  | _ => cases loading

theorem step_loading (m : Machine) (events : List Event) (x : Input) (quiet : x.quiet) (loading : Loading rate burst m events) :
    Loading rate burst (step m x).1 (events ++ (step m x).2) := by
  obtain ⟨opened,either⟩ := loading
  refine ⟨step_opened opened x,?_⟩
  obtain ⟨phase,h⟩ := m
  cases x with
  | start command => exact quiet.elim
  | packet iface skb now => exact quiet.elim
  | lost iface =>
    simp only [step,List.append_nil]
    rcases either with ⟨idle,fresh⟩ | going
    · exact Or.inl ⟨idle,fun done => (fresh done).attach iface []⟩
    · exact Or.inr going
  | turn t =>
    rcases either with ⟨idle,fresh⟩ | ⟨⟨job,loads,hand,rfl,rfl⟩,going,untouched⟩
    · dsimp only at idle
      subst idle
      exact Or.inl ⟨rfl,by simpa [step,perform] using fresh⟩
    · simp only [step,List.mem_append,going,false_or]
      exact perform_loading loads hand opened untouched

theorem run_loading {inputs : List Input} (quiet : ∀ x ∈ inputs, x.quiet) (loading : Loading rate burst m []) :
    Loading rate burst (run step m inputs).1 (run step m inputs).2 := keeps step_loading loading quiet

/-- A load that succeeds where nothing is pinned makes a fresh install. -/
theorem load_fresh {h : State} (none : ∀ name, h.pins name = none) (iface : Str) (order : Order) {inputs : List Input}
    (quiet : ∀ x ∈ inputs, x.quiet)
    (success : .exited true ∈ (run step ⟨.idle,h⟩ (.start (.load iface rate burst order)::inputs)).2) :
    Fresh (stored rate burst) (run step ⟨.idle,h⟩ (.start (.load iface rate burst order)::inputs)).1.host := by
  have began : Loading rate burst ⟨launch (.load iface rate burst order),h⟩ [] := by
    refine ⟨?_,Or.inr ⟨⟨_,rfl,rfl,rfl,rfl⟩,by simp,?_⟩⟩
    · intro job left opening
      cases opening
    · intro name id held
      cases (none name).symm.trans held
  rcases (run_loading quiet began).either with ⟨_,fresh⟩ | ⟨_,going,_⟩
  · exact fresh success
  · exact absurd success going

end Load

/-! ## Purge and load -/

/-- Nothing is pinned, and a load that succeeds next, with no packet meanwhile, is a fresh install. -/
def Clean (m : Machine) : Prop :=
  (∀ name, m.host.pins name = none) ∧ ∀ iface rate burst order inputs, (∀ x ∈ inputs, x.quiet) →
    .exited true ∈ (run step m (.start (.load iface rate burst order)::inputs)).2 →
      Fresh (stored rate burst) (run step m (.start (.load iface rate burst order)::inputs)).1.host

/-- After a purge that succeeds the host is clean exactly when no load of the history has pinned
the heartbeat's map; and if all copies are of this history, one has. -/
theorem purge_clean_iff {start : Machine} (idle : start.phase = .idle) {history : List Input}
    (rest : (run step start history).1.phase = .idle) {iface : Str} {during : List Input}
    (going : ∀ x ∈ during, x.continues)
    (success : .exited true ∈ (run step (run step start history).1 (.start (.unload iface true)::during)).2) :
    (Clean (run step start (history ++ .start (.unload iface true)::during)).1 ↔
        start.host.pins .shieldHealth = none ∧ .pinned .shieldHealth ∉ (run step start history).2) ∧
      ((∀ iface, start.host.attached iface = []) →
        ¬ Clean (run step start (history ++ .start (.unload iface true)::during)).1) := by
  obtain ⟨opened,health,own⟩ := run_known idle history
  have began : Purging (∀ iface, start.host.attached iface = [])
      (start.host.pins .shieldHealth = none ∧ .pinned .shieldHealth ∉ (run step start history).2)
      ⟨.unloading iface true,(run step start history).1.host⟩ [] :=
    ⟨health,rfl,by simp,fun bare attached kept => own bare iface attached (health.mpr kept)⟩
  obtain ⟨left,phases⟩ := run_purging going began
  have same : (run step start (history ++ .start (.unload iface true)::during)).1 =
      (run step ⟨.unloading iface true,(run step start history).1.host⟩ during).1 := by
    rw [run_append,run_cons]
    simp only [step,rest]
    rfl
  have exited : .exited true ∈ (run step ⟨.unloading iface true,(run step start history).1.host⟩ during).2 := by
    rw [run_cons] at success
    simpa only [step,rest,launch,List.nil_append] using success
  rw [same]
  generalize run step ⟨.unloading iface true,(run step start history).1.host⟩ during = done at left phases exited ⊢
  obtain ⟨⟨phase,h⟩,events⟩ := done
  cases phase with
  | idle =>
    obtain ⟨source,gone⟩ := phases exited
    have clean : Clean ⟨.idle,h⟩ ↔ h.pins .shieldHealth = none := by
      constructor
      · exact fun clean => clean.1 _
      · intro absent
        have all (name : MapName) : h.pins name = none := by
          cases name with
          | shieldHealth => exact absent
          | _ => exact gone _ (by decide)
        exact ⟨all,fun iface rate burst order inputs quiet => load_fresh all iface order quiet⟩
    exact ⟨clean.trans left,fun bare cleaned => source bare (left.mp (clean.mp cleaned))⟩
  | unloading _ _ => exact absurd exited phases.2.1
  | unpinning _ => exact absurd exited phases.1
  | _ => exact phases.elim

/-- The guard was loaded and seen attached once, at the time 7. -/
def watched : List Input := smoothly (.load [] 0 0 inOrder) 13 0 ++ smoothly (.status []) 1 7

/-- The heartbeat's map outlives the purge, and the next load takes it up with the time of long ago. -/
theorem heartbeat_survives :
    let after := run step bare (watched ++ smoothly (.unload [] true) 6 9)
    let loaded := run step after.1 (smoothly (.load [] 0 0 inOrder) 13 9)
    after.2.getLast? = some (.exited true) ∧ after.1.host.pins .shieldHealth = some 4 ∧
      loaded.2.getLast? = some (.exited true) ∧ loaded.1.host.get .shieldHealth = some 7 ∧
      cmdHealth 180 1000 true 7 = .stale := ⟨rfl,rfl,rfl,rfl,rfl⟩

theorem purge_clean_watched : ¬ Clean (run step bare (watched ++ smoothly (.unload [] true) 6 9)).1 :=
  (purge_clean_iff rfl rfl (by simp [Input.continues]) (List.mem_of_getLast? rfl)).2 fun _ => rfl

end FipsShield.Guard.Host
