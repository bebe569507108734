import FipsShield.Guard.Commands
import FipsShield.Library.Text
import Mathlib.Logic.Function.Basic
import Mathlib.Data.List.Perm.Basic

/-! A host with a pin directory and the copies of the classifier attached to its interfaces, and
the commands of `fips-guard` on it: each runs one fallible step after another. -/
namespace FipsShield.Guard.Host
open Transducer

/-! ## The pin directory -/

/-- The maps that the object declares with `LIBBPF_PIN_BY_NAME`. -/
inductive MapName where
  | shieldBans | shieldThrottle | shieldConfig | shieldStats | shieldHealth
  deriving DecidableEq

def MapName.all : List MapName := [.shieldBans,.shieldThrottle,.shieldConfig,.shieldStats,.shieldHealth]

abbrev Content : MapName → Type
  | .shieldBans => Bans
  | .shieldThrottle => Throttle
  | .shieldConfig => Config
  | .shieldStats => Slot → UInt64
  | .shieldHealth => UInt64

/-- What a map holds when it is created. -/
def blank : (name : MapName) → Content name
  | .shieldBans => ∅
  | .shieldThrottle => ∅
  | .shieldConfig => ⟨0,0⟩
  | .shieldStats => fun _ => 0
  | .shieldHealth => 0

/-- The maps that a copy of the classifier was loaded with. -/
abbrev Filter := MapName → Nat

structure State where
  pins : MapName → Option Nat
  next : Nat
  content : (name : MapName) → Nat → Content name
  /-- The copies attached to an interface, in the order in which `tc` lists them. -/
  attached : Str → List Filter

namespace State

/-- `open_map` and a read of what the map holds. -/
def get (h : State) (name : MapName) : Option (Content name) := (h.pins name).map (h.content name)

def put (h : State) (name : MapName) (value : Content name) : State :=
  match h.pins name with
  | none => h
  | some id => {h with content := Function.update h.content name (Function.update (h.content name) id value)}

/-- An existing pin is reused; otherwise the map is created and pinned. -/
def pin (h : State) (name : MapName) : State :=
  match h.pins name with
  | some _ => h
  | none =>
    {h with
      pins := Function.update h.pins name (some h.next)
      next := h.next + 1
      content := Function.update h.content name (Function.update (h.content name) h.next (blank name))}

def unpin (h : State) (name : MapName) : State := {h with pins := Function.update h.pins name none}

def attach (h : State) (iface : Str) (filters : List Filter) : State :=
  {h with attached := Function.update h.attached iface filters}

end State

/-! ## The commands -/

/-- An order in which the loader may come to the maps. -/
structure Order where
  names : List MapName
  perm : names.Perm MapName.all

inductive Command where
  | load (iface : Str) (rate burst : UInt64) (order : Order)
  | unload (iface : Str) (purge : Bool)
  | ban (ip : Option IpAddr) (seconds : Int64) (mono epoch sweep : UInt64)
  | unban (ip : Option IpAddr)
  | ask (asked : Asked)
  | throttle (rate burst : UInt64)
  | status (iface : Str)
  | watchdog (iface : Str) (order : Order)
  | health (maxAge : UInt64)

/-- A run of `cmd_load`, by itself or from the watchdog. -/
structure Job where
  iface : Str
  rate : UInt64
  burst : UInt64
  watch : Bool
  opened : Filter

def Job.opens (job : Job) (name : MapName) (id : Option Nat) : Job :=
  {job with opened := Function.update job.opened name (id.getD 0)}

/-- The next step of the command that runs. -/
inductive Phase where
  | idle
  | checking (iface : Str) (order : Order)
  | reading (iface : Str) (order : Order)
  | creating (job : Job) (order : Order)
  | pinning (job : Job) (left : List MapName)
  | verifying (job : Job)
  | adding (job : Job)
  | detaching (job : Job)
  | attaching (job : Job)
  | taking (job : Job)
  | configuring (job : Job)
  | rechecking (iface : Str)
  | beating
  | probing (iface : Str)
  | unloading (iface : Str) (purge : Bool)
  | unpinning (done : Nat)
  | throttling (rate burst : UInt64)
  | editing (edit : Bans → Bans)
  | reporting (maxAge : UInt64)

/-- What the environment makes of a step: whether it succeeds, how many copies a detachment
that fails has removed, and the wall clock. -/
structure Turn where
  ok : Bool
  removed : Nat := 0
  now : UInt64 := 0

inductive Health where
  | unknown | stale | fresh
  deriving DecidableEq

inductive Event where
  | pinned (name : MapName)
  | read (ok : Bool)
  | detached (left : List Filter)
  | attached
  | dropped
  | configured
  | reported (health : Health)
  | exited (success : Bool)

/-- `cmd_health`, of a heartbeat that cannot be read as of none. -/
def cmdHealth (maxAge now : UInt64) (readable : Bool) (last : UInt64) : Health :=
  let last := if readable then last else 0
  if last = 0 then .unknown
  else if (if last ≤ now then now - last else 0) > maxAge then .stale
  else .fresh

/-- `qdisc_detach_program`: whether every copy went, if there was one, and those that are left. -/
def qdiscDetachProgram (t : Turn) (filters : List Filter) : Bool × List Filter :=
  if filters = [] then (false,[])
  else if t.ok then (true,[])
  else (false,filters.drop (min t.removed (filters.length - 1)))

/-- The maps that `cmd_unload --purge` unpins. -/
def purged : List MapName := [.shieldBans,.shieldThrottle,.shieldConfig,.shieldStats]

structure Machine where
  phase : Phase
  host : State

def launch : Command → Phase
  | .load iface rate burst order => .creating ⟨iface,rate,burst,false,fun _ => 0⟩ order
  | .unload iface purge => .unloading iface purge
  | .ban ip seconds mono epoch sweep => .editing fun bans => (cmdBan maxTracked mono epoch sweep ip seconds bans).2
  | .unban ip => .editing fun bans => (cmdUnban ip bans).2
  | .ask asked => .editing fun bans => (ask maxTracked (fun _ => 0) ⟨0,0⟩ bans asked).1
  | .throttle rate burst => .throttling rate burst
  | .status iface => .probing iface
  | .watchdog iface order => .checking iface order
  | .health maxAge => .reporting maxAge

def exit (h : State) (success : Bool) : Machine × List Event := (⟨.idle,h⟩,[.exited success])

/-- A step that changes nothing of the host if it succeeds, and ends the command if it fails. -/
def check (t : Turn) (h : State) (next : Phase) : Machine × List Event := if t.ok then (⟨next,h⟩,[]) else exit h false

/-- `write_heartbeat`; none if the map is not pinned or the write fails. -/
def writeHeartbeat (t : Turn) (h : State) : Option State :=
  if t.ok ∧ (h.pins .shieldHealth).isSome then some (h.put .shieldHealth t.now) else none

/-- `set_config`; none if the map is not pinned or the write fails. -/
def setConfig (t : Turn) (rate burst : UInt64) (h : State) : Option State :=
  if t.ok ∧ (h.pins .shieldConfig).isSome then some (h.put .shieldConfig (stored rate burst)) else none

/-- One step of the command that runs. -/
def perform (t : Turn) (h : State) : Phase → Machine × List Event
  | .idle => (⟨.idle,h⟩,[])
  | .checking iface order =>
    if !t.ok then exit h false
    else if h.attached iface ≠ [] then (⟨.beating,h⟩,[])
    else (⟨.reading iface order,h⟩,[])
  | .reading iface order =>
    match if t.ok then h.get .shieldConfig else none with
    | some cfg => (⟨.creating ⟨iface,cfg.ratePps,cfg.burstPkts,true,fun _ => 0⟩ order,h⟩,[.read true])
    | none => (⟨.creating ⟨iface,0,0,true,fun _ => 0⟩ order,h⟩,[.read false])
  | .creating job order => check t h (.pinning job order.names)
  | .pinning job [] => check t h (.verifying job)
  | .pinning job (name::left) =>
    if !t.ok then exit h false
    else
      let h := h.pin name
      (⟨.pinning (job.opens name (h.pins name)) left,h⟩,[.pinned name])
  | .verifying job => check t h (.adding job)
  -- the result of `qdisc_add_clsact` is dropped
  | .adding job => (⟨.detaching job,h⟩,[])
  | .detaching job =>
    -- and so is whether the detachment succeeded
    let left := (qdiscDetachProgram t (h.attached job.iface)).2
    (⟨.attaching job,h.attach job.iface left⟩,[.detached left])
  | .attaching job =>
    if !t.ok then exit h false
    else (⟨.taking job,h.attach job.iface (h.attached job.iface ++ [job.opened])⟩,[.attached])
  | .taking job =>
    if t.ok then (⟨.configuring job,h⟩,[])
    else
      -- the link guard is dropped with the loader, and takes the new copy along
      let done := exit (h.attach job.iface (h.attached job.iface).dropLast) false
      (done.1,.dropped::done.2)
  | .configuring job =>
    match setConfig t job.rate job.burst h with
    | none => exit h false
    | some h =>
      if job.watch then (⟨.rechecking job.iface,h⟩,[.configured])
      else
        let done := exit h true
        (done.1,.configured::done.2)
  | .rechecking iface =>
    if !t.ok then exit h false
    else if h.attached iface ≠ [] then (⟨.beating,h⟩,[])
    else exit h false
  | .beating =>
    match writeHeartbeat t h with
    | none => exit h false
    | some h => exit h true
  | .probing iface =>
    if !t.ok then exit h false
    else if h.attached iface ≠ [] then exit ((writeHeartbeat t h).getD h) true
    else exit h false
  | .unloading iface purge =>
    let done := qdiscDetachProgram t (h.attached iface)
    let h := h.attach iface done.2
    if !purge then exit h true
    else if !done.1 then exit h false
    else (⟨.unpinning 0,h⟩,[])
  | .unpinning done =>
    match purged[done]? with
    | none => exit h true
    | some name =>
      if h.pins name = none then (⟨.unpinning (done + 1),h⟩,[])
      else if t.ok then (⟨.unpinning (done + 1),h.unpin name⟩,[])
      else exit h false
  | .throttling rate burst =>
    match setConfig t rate burst h with
    | none => exit h false
    | some h => exit h true
  | .editing edit =>
    match if t.ok then h.get .shieldBans else none with
    | none => exit h false
    | some bans => exit (h.put .shieldBans (edit bans)) true
  | .reporting maxAge =>
    match h.get .shieldHealth with
    | none => exit h false
    | some last =>
      let health := cmdHealth maxAge t.now t.ok last
      let done := exit h (health ≠ .stale)
      (done.1,.reported health::done.2)

/-- A command begins, or the one that runs makes a step; or a packet meets the first copy that is
attached to an interface, or the copies there are taken away from outside. -/
inductive Input where
  | start (command : Command)
  | turn (t : Turn)
  | packet (iface : Str) (skb : Packet) (now : UInt64)
  | lost (iface : Str)

/-- What a packet makes of the maps of the copy that it meets. -/
def classify (filter : Filter) (skb : Packet) (now : UInt64) (h : State) : State :=
  let done := shieldGuard (h.content .shieldBans (filter .shieldBans)) (h.content .shieldConfig (filter .shieldConfig))
    (h.content .shieldThrottle (filter .shieldThrottle)) skb now
  let stats := h.content .shieldStats (filter .shieldStats)
  let throttled := Function.update (h.content .shieldThrottle) (filter .shieldThrottle) done.2.2
  let counted := Function.update (h.content .shieldStats) (filter .shieldStats)
    (Function.update stats done.2.1 (stats done.2.1 + 1))
  {h with content := Function.update (Function.update h.content .shieldThrottle throttled) .shieldStats counted}

def step (m : Machine) : Input → Machine × List Event
  | .start command =>
    match m.phase with
    | .idle => (⟨launch command,m.host⟩,[])
    | _ => (m,[])
  | .turn t => perform t m.host m.phase
  | .packet iface skb now =>
    match m.host.attached iface with
    | [] => (m,[])
    | filter::_ => (⟨m.phase,classify filter skb now m.host⟩,[])
  | .lost iface => (⟨m.phase,m.host.attach iface []⟩,[])

/-- A host with nothing pinned and nothing attached. -/
def bare : Machine := ⟨.idle,⟨fun _ => none,0,fun name _ => blank name,fun _ => []⟩⟩

def inOrder : Order := ⟨MapName.all,.refl _⟩

/-- A command whose steps all succeed, at one reading of the wall clock. -/
def smoothly (command : Command) (steps : Nat) (now : UInt64) : List Input :=
  .start command::List.replicate steps (.turn ⟨true,0,now⟩)

/-! ## What the operations leave -/

section Operations
variable (h : State) (name : MapName)

@[simp] theorem attach_pins (iface : Str) (filters : List Filter) : (h.attach iface filters).pins = h.pins := rfl

@[simp] theorem attach_content (iface : Str) (filters : List Filter) : (h.attach iface filters).content = h.content := rfl

@[simp] theorem attach_attached (iface : Str) (filters : List Filter) :
    (h.attach iface filters).attached iface = filters := Function.update_self _ _ _

@[simp] theorem put_pins (value : Content name) : (h.put name value).pins = h.pins := by
  unfold State.put
  split <;> rfl

@[simp] theorem put_attached (value : Content name) : (h.put name value).attached = h.attached := by
  unfold State.put
  split <;> rfl

@[simp] theorem pin_attached : (h.pin name).attached = h.attached := by
  unfold State.pin
  split <;> rfl

@[simp] theorem unpin_attached : (h.unpin name).attached = h.attached := rfl

@[simp] theorem classify_pins (filter : Filter) (skb : Packet) (now : UInt64) :
    (classify filter skb now h).pins = h.pins := rfl

@[simp] theorem classify_attached (filter : Filter) (skb : Packet) (now : UInt64) :
    (classify filter skb now h).attached = h.attached := rfl

variable {h name}

theorem put_get {id : Nat} (held : h.pins name = some id) (value : Content name) :
    (h.put name value).get name = some value := by
  simp only [State.get,held,State.put,Option.map_some,Function.update_self]

theorem put_get_ne {other : MapName} (apart : other ≠ name) (value : Content name) :
    (h.put name value).get other = h.get other := by
  unfold State.put
  split
  · rfl
  · simp only [State.get,Function.update_of_ne apart]

theorem pin_self : ∃ id, (h.pin name).pins name = some id := by
  unfold State.pin
  split
  · next id held => exact ⟨id,held⟩
  · exact ⟨h.next,Function.update_self _ _ _⟩

theorem pin_keeps {other : MapName} {id : Nat} (held : h.pins other = some id) : (h.pin name).pins other = some id := by
  unfold State.pin
  split
  · exact held
  · next free =>
    have apart : other ≠ name := by
      rintro rfl
      cases free.symm.trans held
    exact (Function.update_of_ne apart _ _).trans held

theorem pin_get {other : MapName} {id : Nat} (held : h.pins other = some id) : (h.pin name).get other = h.get other := by
  unfold State.pin
  split
  · rfl
  · next free =>
    have apart : other ≠ name := by
      rintro rfl
      cases free.symm.trans held
    simp only [State.get,Function.update_of_ne apart]

theorem pin_others {other : MapName} (apart : other ≠ name) : (h.pin name).pins other = h.pins other := by
  unfold State.pin
  split
  · rfl
  · exact Function.update_of_ne apart _ _

end Operations

/-! ## What a step does to the pins -/

/-- The run of `cmd_load` that has begun to open maps, and those that it has yet to open. -/
def Phase.opening : Phase → Option (Job × List MapName)
  | .pinning job left => some (job,left)
  | .verifying job | .adding job | .detaching job | .attaching job | .taking job | .configuring job => some (job,[])
  | _ => none

section Pins
variable {m : Machine} {x : Input}

theorem writeHeartbeat_some {t : Turn} {h after : State} (written : writeHeartbeat t h = some after) :
    after = h.put .shieldHealth t.now := by
  unfold writeHeartbeat at written
  split_ifs at written
  exact (Option.some.inj written).symm

theorem setConfig_some {t : Turn} {rate burst : UInt64} {h after : State} (written : setConfig t rate burst h = some after) :
    after = h.put .shieldConfig (stored rate burst) := by
  unfold setConfig at written
  split_ifs at written
  exact (Option.some.inj written).symm

theorem qdiscDetachProgram_left {t : Turn} {filters : List Filter} (left : (qdiscDetachProgram t filters).2 ≠ []) :
    filters ≠ [] := by
  rintro rfl
  exact left rfl

/-- What a turn of the command that runs may do: pin the next map that the loader comes to,
unpin the next one of a purge, attach or take away copies, write to a map, or none of these. -/
inductive Turned (h : State) : Phase → Machine → List Event → Prop where
  | pinned (job : Job) (name : MapName) (left : List MapName) :
    Turned h (.pinning job (name::left)) ⟨.pinning (job.opens name ((h.pin name).pins name)) left,h.pin name⟩ [.pinned name]
  | unpinned {done : Nat} {name : MapName} (listed : purged[done]? = some name) :
    Turned h (.unpinning done) ⟨.unpinning (done + 1),h.unpin name⟩ []
  | kept {phase next : Phase} {events : List Event} (none : ∀ name, .pinned name ∉ events) : Turned h phase ⟨next,h⟩ events
  | attached {phase next : Phase} {events : List Event} (none : ∀ name, .pinned name ∉ events) (iface : Str)
      (filters : List Filter) (fewer : filters ≠ [] → h.attached iface ≠ [] ∨ ∃ job, phase = .attaching job) :
    Turned h phase ⟨next,h.attach iface filters⟩ events
  | configured {phase next : Phase} {events : List Event} (none : ∀ name, .pinned name ∉ events) (rate burst : UInt64) :
    Turned h phase ⟨next,h.put .shieldConfig (stored rate burst)⟩ events
  | wrote {phase next : Phase} {events : List Event} (none : ∀ name, .pinned name ∉ events) {name : MapName}
      (other : name ≠ .shieldConfig) (value : Content name) : Turned h phase ⟨next,h.put name value⟩ events

theorem beaten_turned {t : Turn} {h after : State} (written : writeHeartbeat t h = some after) (phase : Phase) :
    Turned h phase (exit after true).1 (exit after true).2 := by
  have other : MapName.shieldHealth ≠ .shieldConfig := by decide
  rw [writeHeartbeat_some written]
  exact .wrote (by simp [exit]) other t.now

theorem exit_turned (h : State) (phase : Phase) (success : Bool) : Turned h phase (exit h success).1 (exit h success).2 :=
  .kept (by simp [exit])

theorem check_turned (t : Turn) (h : State) (phase next : Phase) : Turned h phase (check t h next).1 (check t h next).2 := by
  unfold check
  split_ifs
  · exact .kept (by simp)
  · exact exit_turned h phase false

theorem perform_turned (t : Turn) (h : State) (phase : Phase) : Turned h phase (perform t h phase).1 (perform t h phase).2 := by
  cases phase with
  | pinning job left =>
    cases left with
    | nil => exact check_turned t h _ _
    | cons name left =>
      simp only [perform]
      split_ifs
      · exact exit_turned h _ false
      · exact .pinned job name left
  | unpinning done =>
    simp only [perform]
    split
    · exact exit_turned h _ true
    · next name listed =>
      split_ifs
      · exact .kept (by simp)
      · exact .unpinned listed
      · exact exit_turned h _ false
  | creating job order => exact check_turned t h _ _
  | verifying job => exact check_turned t h _ _
  | detaching job => exact .attached (by simp [perform]) _ _ fun left => Or.inl (qdiscDetachProgram_left left)
  | attaching job =>
    simp only [perform]
    split_ifs
    · exact exit_turned h _ false
    · exact .attached (by simp) _ _ fun _ => Or.inr ⟨job,rfl⟩
  | taking job =>
    simp only [perform]
    split_ifs
    · exact .kept (by simp)
    · refine .attached (by simp [exit]) _ _ fun left => Or.inl fun none => ?_
      rw [none] at left
      exact left rfl
  | unloading iface purge =>
    have left := @qdiscDetachProgram_left t (h.attached iface)
    simp only [perform]
    split_ifs
    · exact .attached (by simp [exit]) _ _ fun some' => Or.inl (left some')
    · exact .attached (by simp [exit]) _ _ fun some' => Or.inl (left some')
    · exact .attached (by simp) _ _ fun some' => Or.inl (left some')
  | configuring job =>
    simp only [perform]
    split
    · exact exit_turned h _ false
    · next written =>
      rw [setConfig_some written]
      split_ifs
      · exact .configured (by simp) _ _
      · exact .configured (by simp [exit]) _ _
  | throttling rate burst =>
    simp only [perform]
    split
    · exact exit_turned h _ false
    · next written =>
      rw [setConfig_some written]
      exact .configured (by simp [exit]) rate burst
  | beating =>
    simp only [perform]
    split
    · exact exit_turned h _ false
    · next written => exact beaten_turned written _
  | probing iface =>
    simp only [perform]
    split_ifs
    · exact exit_turned h _ false
    · cases written : writeHeartbeat t h with
      | none => exact exit_turned h _ true
      | some after => exact beaten_turned written _
    · exact exit_turned h _ false
  | editing edit =>
    simp only [perform]
    split
    · exact exit_turned h _ false
    · next bans _ =>
      have other : MapName.shieldBans ≠ .shieldConfig := by decide
      exact .wrote (by simp [exit]) other (edit bans)
  | idle | adding job => exact .kept (by simp [perform])
  | checking iface order | rechecking iface =>
    simp only [perform,exit]
    split_ifs <;> exact .kept (by simp)
  | reading iface order | reporting maxAge =>
    simp only [perform,exit]
    split <;> exact .kept (by simp)

/-- A step pins the next map that the loader comes to, or unpins the next one of a purge, or
leaves every pin as it is. -/
theorem step_pins (m : Machine) (x : Input) :
    (∃ job name left, m.phase = .pinning job (name::left) ∧ (step m x).1.host = m.host.pin name ∧
        (step m x).1.phase = .pinning (job.opens name ((m.host.pin name).pins name)) left ∧
        (step m x).2 = [.pinned name]) ∨
      (∃ done name, m.phase = .unpinning done ∧ purged[done]? = some name ∧
        (step m x).1 = ⟨.unpinning (done + 1),m.host.unpin name⟩ ∧ (step m x).2 = []) ∨
      (step m x).1.host.pins = m.host.pins ∧ ∀ name, .pinned name ∉ (step m x).2 := by
  obtain ⟨phase,h⟩ := m
  cases x with
  | start command =>
    refine Or.inr (Or.inr ?_)
    cases phase <;> simp [step]
  | lost iface => exact Or.inr (Or.inr (by simp [step]))
  | packet iface skb now =>
    refine Or.inr (Or.inr ?_)
    cases listed : h.attached iface <;> simp [step,listed]
  | turn t =>
    have turned := perform_turned t h phase
    simp only [step]
    generalize perform t h phase = done at turned ⊢
    obtain ⟨next,events⟩ := done
    cases turned with
    | pinned job name left => exact Or.inl ⟨job,name,left,rfl,rfl,rfl,rfl⟩
    | unpinned listed => exact Or.inr (Or.inl ⟨_,_,rfl,listed,rfl,rfl⟩)
    | kept none | attached none => exact Or.inr (Or.inr ⟨rfl,none⟩)
    | configured none | wrote none => exact Or.inr (Or.inr ⟨put_pins _ _ _,none⟩)

theorem order_complete (order : Order) (name : MapName) : name ∈ order.names := by
  have listed : name ∈ MapName.all := by cases name <;> simp [MapName.all]
  exact order.perm.mem_iff.mpr listed

theorem launch_opening (command : Command) : (launch command).opening = none := by cases command <;> rfl

theorem check_opening (t : Turn) (h : State) (next : Phase) :
    (check t h next).1.phase.opening = if t.ok then next.opening else none := by
  unfold check
  split_ifs <;> rfl

/-- A load that opens maps has just begun to, or goes on with those it had, unless it pins one. -/
theorem perform_opening {t : Turn} {h : State} {phase : Phase} {job : Job} {left : List MapName}
    (opening : (perform t h phase).1.phase.opening = some (job,left)) (none : ∀ name, .pinned name ∉ (perform t h phase).2) :
    (∃ order : Order, left = order.names) ∨ phase.opening = some (job,left) := by
  cases phase with
  | creating before order =>
    rw [perform,check_opening] at opening
    split_ifs at opening
    exact Or.inl ⟨order,(Prod.mk.inj (Option.some.inj opening)).2.symm⟩
  | verifying before =>
    rw [perform,check_opening] at opening
    split_ifs at opening
    exact Or.inr opening
  | adding before | detaching before => exact Or.inr opening
  | attaching before =>
    simp only [perform] at opening
    split_ifs at opening
    · cases opening
    · exact Or.inr opening
  | taking before =>
    simp only [perform] at opening
    split_ifs at opening
    · exact Or.inr opening
    · cases opening
  | pinning before rest =>
    cases rest with
    | nil =>
      rw [perform,check_opening] at opening
      split_ifs at opening
      exact Or.inr opening
    | cons name rest =>
      simp only [perform] at opening none
      split_ifs at opening none
      · cases opening
      · exact absurd (List.mem_singleton_self _) (none name)
  | configuring before =>
    simp only [perform] at opening
    split at opening
    · cases opening
    · split_ifs at opening <;> cases opening
  | throttling rate burst | beating | editing edit | reporting maxAge | reading iface order =>
    simp only [perform] at opening
    split at opening <;> cases opening
  | checking iface order | rechecking iface | probing iface | unloading iface purge =>
    simp only [perform] at opening
    split_ifs at opening <;> cases opening
  | unpinning done =>
    simp only [perform] at opening
    split at opening
    · cases opening
    · split_ifs at opening <;> cases opening
  | idle => cases opening

/-- The maps that a load has opened are pinned, and are those that its copy will read. -/
def Opened (m : Machine) : Prop :=
  ∀ job left, m.phase.opening = some (job,left) → ∀ name, name ∉ left → m.host.pins name = some (job.opened name)

theorem opens_opened (job : Job) (name : MapName) (id : Nat) : (job.opens name (some id)).opened name = id := by
  simp [Job.opens]

theorem opens_others {other name : MapName} (apart : other ≠ name) (job : Job) (id : Option Nat) :
    (job.opens name id).opened other = job.opened other := by
  simp [Job.opens,Function.update_of_ne apart]

theorem step_opened {m : Machine} (opened : Opened m) (x : Input) : Opened (step m x).1 := by
  intro job left opening name apart
  rcases step_pins m x with ⟨before,first,rest,phase,host,next,_⟩ | ⟨_,_,_,_,next,_⟩ | ⟨same,none⟩
  · rw [next] at opening
    obtain ⟨rfl,rfl⟩ := Prod.mk.inj (Option.some.inj opening)
    rw [host]
    obtain ⟨id,held⟩ := @pin_self m.host first
    by_cases own : name = first
    · subst own
      rw [held,opens_opened]
    · have later := opened before (first::rest) (by rw [phase]; rfl) name (by simp [own,apart])
      rw [pin_keeps later,opens_others own]
  · rw [next] at opening
    cases opening
  · rw [same]
    suffices earlier : (∃ order : Order, left = order.names) ∨ m.phase.opening = some (job,left) by
      rcases earlier with ⟨order,rfl⟩ | earlier
      · exact absurd (order_complete order name) apart
      · exact opened job left earlier name apart
    obtain ⟨phase,h⟩ := m
    cases x with
    | turn t => exact perform_opening opening none
    | lost iface => exact Or.inr opening
    | packet iface skb now =>
      cases listed : h.attached iface <;> exact Or.inr (by simpa [step,listed] using opening)
    | start command =>
      cases phase
      case idle => exact absurd ((launch_opening command).symm.trans opening) (by simp)
      all_goals exact Or.inr opening

end Pins
end FipsShield.Guard.Host
