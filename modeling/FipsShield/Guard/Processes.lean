import FipsShield.Guard.Commands

/-! `fips-guard` processes on the same pinned maps, each making one map operation at a
time in any order, and what a ban that one of them has inserted can be lost to. -/
namespace FipsShield.Guard
open Transducer

inductive Command where
  | ban (ip : Option IpAddr) (seconds : Int64)
  | unban (ip : Option IpAddr)
  | check (ip : Option IpAddr)
  | list
  | stats

inductive Sweep where
  | ban (key : Addr6) (val : BanVal)
  | list
  | stats (total : Nat)

/-- The next operation of a process, and what it remembers. -/
inductive Process where
  | banClock (key : Addr6) (seconds : Int64)
  | banInsert (key : Addr6) (val : BanVal)
  | banRetry (key : Addr6) (val : BanVal)
  | sweepClock (sweep : Sweep)
  | sweepNext (sweep : Sweep) (now : UInt64) (expired : List Addr6)
  | sweepLook (sweep : Sweep) (now : UInt64) (expired : List Addr6) (key : Addr6)
  | sweepRemove (sweep : Sweep) (expired : List Addr6)
  | listClock
  | listNext (now : UInt64) (active : List (Addr6 × UInt64))
  | listLook (now : UInt64) (active : List (Addr6 × UInt64)) (key : Addr6)
  | statsNext (total : Nat)
  | statsLook (total : Nat) (key : Addr6)
  | unbanLook (key : Addr6)
  | unbanRemove (key : Addr6) (wasBanned : Bool)
  | unbanBack (key : Addr6)
  | checkLook (key : Addr6)
  | checkClock (key : Addr6) (v : BanVal)
  | checkRemove (key : Addr6)
  | exited (success : Bool)

def launch : Command → Process
  | .ban ip seconds => onAddress ip true fun key => .banClock key seconds
  | .unban ip => onAddress ip true .unbanLook
  | .check ip => onAddress ip false .checkLook
  | .list => .sweepClock .list
  | .stats => .statsNext 0
where
  onAddress (ip : Option IpAddr) (success : Bool) (go : Addr6 → Process) : Process :=
    match parseV6 ip with
    | .error _ => .exited false
    | .ok none => .exited success
    | .ok (some key) => go key

/-- What is seen of an operation: a ban that has been inserted, an entry found that a
clean-up may go on to remove, one it has removed, and one that `unban` has. -/
inductive Event where
  | inserted (key : Addr6) (val : BanVal)
  | looked (p : Nat) (key : Addr6)
  | cleared (p : Nat) (key : Addr6)
  | unbanned (key : Addr6)
  deriving DecidableEq

def swept : Sweep → Process
  | .ban key val => .banRetry key val
  | .list => .listClock
  | .stats _ => .exited true

/-- One operation of a process. `next` is the key that the kernel gives for the next one,
in an order of its own; an operation with a `fault` fails and leaves the map as it was. -/
def operate (capacity : Nat) (mono epoch : UInt64) (p : Nat) (next : Option Addr6) (fault : Bool)
    (bans : Bans) : Process → Bans × Process × Option Event
  | .banClock key seconds => (bans,.banInsert key (banVal seconds mono epoch),none)
  | .banInsert key val =>
    match if fault then none else insertBan capacity bans key val with
    | some bans => (bans,.exited true,some (.inserted key val))
    | none => (bans,.sweepClock (.ban key val),none)
  | .banRetry key val =>
    match if fault then none else insertBan capacity bans key val with
    | some bans => (bans,.exited true,some (.inserted key val))
    | none => (bans,.exited false,none)
  | .sweepClock sweep => (bans,.sweepNext sweep mono [],none)
  | .sweepNext sweep now expired =>
    if fault then (bans,.exited false,none)
    else match next with
    | none => (bans,.sweepRemove sweep expired,none)
    | some key => (bans,if key ∈ bans then .sweepLook sweep now expired key else .sweepNext sweep now expired,none)
  | .sweepLook sweep now expired key =>
    if fault then (bans,.exited false,none)
    else match bans.lookup key with
    | some v =>
      if v.expiresMonoNs != 0 && v.expiresMonoNs ≤ now then
        (bans,.sweepNext sweep now (expired ++ [key]),some (.looked p key))
      else (bans,.sweepNext sweep now expired,none)
    | none => (bans,.sweepNext sweep now expired,none)
  | .sweepRemove sweep [] => (bans,swept sweep,none)
  | .sweepRemove sweep (key::rest) =>
    if fault ∨ key ∉ bans then (bans,.sweepRemove sweep rest,none)
    else (bans.erase key,.sweepRemove sweep rest,some (.cleared p key))
  | .listClock => (bans,.listNext mono [],none)
  | .listNext now active =>
    if fault then (bans,.exited false,none)
    else match next with
    | none => (bans,.exited true,none)
    | some key => (bans,if key ∈ bans then .listLook now active key else .listNext now active,none)
  | .listLook now active key =>
    if fault then (bans,.exited false,none)
    else match bans.lookup key with
    | some v =>
      if v.expiresMonoNs == 0 || v.expiresMonoNs > now then
        (bans,.listNext now (active ++ [(key,v.expiresEpochS)]),none)
      else (bans,.listNext now active,none)
    | none => (bans,.listNext now active,none)
  | .statsNext total =>
    if fault then (bans,.sweepClock (.stats (total + 1)),none)
    else match next with
    | none => (bans,.sweepClock (.stats total),none)
    | some key => (bans,if key ∈ bans then .statsLook total key else .statsNext total,none)
  | .statsLook total key =>
    (bans,if fault ∨ key ∈ bans then .statsNext (total + 1) else .statsNext total,none)
  | .unbanLook key => (bans,.unbanRemove key (!fault && (bans.lookup key).isSome),none)
  | .unbanRemove key wasBanned =>
    if fault ∨ key ∉ bans then (bans,if wasBanned then .exited false else .unbanBack key,none)
    else (bans.erase key,.unbanBack key,some (.unbanned key))
  | .unbanBack key => (bans,.exited (fault || (bans.lookup key).isNone),none)
  | .checkLook key =>
    match if fault then none else bans.lookup key with
    | some v =>
      if v.expiresMonoNs == 0 then (bans,.exited true,none)
      else (bans,.checkClock key v,some (.looked p key))
    | none => (bans,.exited false,none)
  | .checkClock key v => (bans,if v.expiresMonoNs > mono then .exited true else .checkRemove key,none)
  | .checkRemove key =>
    if fault ∨ key ∉ bans then (bans,.exited false,none)
    else (bans.erase key,.exited false,some (.cleared p key))
  | .exited success => (bans,.exited success,none)

structure System where
  bans : Bans
  mono : UInt64
  epoch : UInt64
  procs : Nat → Process

inductive Label where
  | clock (mono epoch : UInt64)
  | launch (p : Nat) (command : Command)
  | act (p : Nat) (next : Option Addr6) (fault : Bool)

/-- A step of the system; the monotonic clock does not go back, and a process is launched
where none is at work. -/
def System.step (capacity : Nat) (s : System) : Label → System × List Event
  | .clock mono epoch => (if s.mono ≤ mono then {s with mono,epoch} else s,[])
  | .launch p command =>
    match s.procs p with
    | .exited _ => ({s with procs := Function.update s.procs p (launch command)},[])
    | _ => (s,[])
  | .act p next fault =>
    let done := operate capacity s.mono s.epoch p next fault s.bans (s.procs p)
    ({s with bans := done.1,procs := Function.update s.procs p done.2.1},done.2.2.toList)

/-! ## What an operation does to the map -/

def Event.effect (bans : Bans) : Event → Bans
  | .inserted key val => bans.insert key val
  | .looked _ _ => bans
  | .cleared _ key => bans.erase key
  | .unbanned key => bans.erase key

theorem attempt_eq {capacity : Nat} {bans after : Bans} {key : Addr6} {val : BanVal} {fault : Bool}
    (inserted : (if fault then none else insertBan capacity bans key val) = some after) :
    after = bans.insert key val := by
  split_ifs at inserted
  exact insertBan_eq inserted

/-- The map changes as the event says, and not where there is none. -/
theorem operate_bans (capacity : Nat) (mono epoch : UInt64) (p : Nat) (next : Option Addr6) (fault : Bool)
    (bans : Bans) (proc : Process) : (operate capacity mono epoch p next fault bans proc).1 =
      (operate capacity mono epoch p next fault bans proc).2.2.toList.foldl Event.effect bans := by
  cases proc with
  | banInsert key val =>
    simp only [operate]
    split
    · next after inserted => exact attempt_eq inserted
    · rfl
  | banRetry key val =>
    simp only [operate]
    split
    · next after inserted => exact attempt_eq inserted
    · rfl
  | sweepRemove sweep expired =>
    cases expired with
    | nil => rfl
    | cons key rest =>
      simp only [operate]
      split_ifs <;> rfl
  | _ =>
    simp only [operate]
    (repeat' split) <;> rfl

/-! ## A ban that overtakes a clean-up -/

/-- Whether a ban of the key has been inserted since the process last looked it up. -/
def note (p : Nat) (key : Addr6) (overtaken : Bool) : Event → Bool
  | .inserted k _ => if k = key then true else overtaken
  | .looked q k => if q = p ∧ k = key then false else overtaken
  | _ => overtaken

def overtaken (p : Nat) (key : Addr6) (trace : List Event) : Bool := trace.foldl (note p key) false

theorem overtaken_concat (p : Nat) (key : Addr6) (trace : List Event) (event : Event) :
    overtaken p key (trace ++ [event]) = note p key (overtaken p key trace) event := by
  simp [overtaken]

/-- What a clean-up is about to remove has lapsed, unless a ban has overtaken it. -/
def Doomed (s : System) (trace : List Event) (p : Nat) (key : Addr6) : Prop :=
  overtaken p key trace = true ∨ ∀ v, s.bans.lookup key = some v → ¬ v.Standing s.mono

/-- What a process remembers is right, unless a ban has overtaken it. -/
def Sound (s : System) (trace : List Event) (p : Nat) : Process → Prop
  | .sweepNext _ now expired => now ≤ s.mono ∧ ∀ key ∈ expired, Doomed s trace p key
  | .sweepLook _ now expired _ => now ≤ s.mono ∧ ∀ key ∈ expired, Doomed s trace p key
  | .sweepRemove _ expired => ∀ key ∈ expired, Doomed s trace p key
  | .checkClock key v => v.expiresMonoNs ≠ 0 ∧
      (overtaken p key trace = true ∨ ∀ w, s.bans.lookup key = some w → w = v)
  | .checkRemove key => Doomed s trace p key
  | _ => True

structure Follows (s s' : System) (event : Option Event) : Prop where
  mono : s.mono ≤ s'.mono
  bans : s'.bans = event.toList.foldl Event.effect s.bans

section Follows
variable {s s' : System} {trace : List Event} {event : Option Event} (after : Follows s s' event)
  {p : Nat} {key : Addr6}
include after

theorem Follows.entry (key : Addr6) : s'.bans.lookup key = s.bans.lookup key ∨ s'.bans.lookup key = none ∨
    ∃ val, event = some (.inserted key val) ∧ s'.bans.lookup key = some val := by
  rw [after.bans]
  rcases event with _ | event
  · exact Or.inl rfl
  · have erased (k : Addr6) : (s.bans.erase k).lookup key = s.bans.lookup key ∨ (s.bans.erase k).lookup key = none := by
      by_cases same : key = k
      · subst same
        exact Or.inr (AList.lookup_erase key s.bans)
      · exact Or.inl (AList.lookup_erase_ne same)
    cases event with
    | inserted k val =>
      by_cases same : key = k
      · subst same
        exact Or.inr (Or.inr ⟨val,rfl,AList.lookup_insert s.bans⟩)
      · exact Or.inl (AList.lookup_insert_ne same)
    | looked q k => exact Or.inl rfl
    | cleared q k => exact (erased k).imp_right Or.inl
    | unbanned k => exact (erased k).imp_right Or.inl

omit after in
theorem overtaken_stays (other : event ≠ some (.looked p key)) (flagged : overtaken p key trace = true) :
    overtaken p key (trace ++ event.toList) = true := by
  rcases event with _ | event
  · simpa using flagged
  · rw [Option.toList_some,overtaken_concat,flagged]
    cases event with
    | inserted k val => simp [note]
    | looked q k =>
      have apart : ¬ (q = p ∧ k = key) := by
        rintro ⟨rfl,rfl⟩
        exact other rfl
      simp [note,apart]
    | cleared q k => rfl
    | unbanned k => rfl

omit after in
theorem overtaken_inserted {val : BanVal} (inserted : event = some (.inserted key val)) :
    overtaken p key (trace ++ event.toList) = true := by
  rw [inserted,Option.toList_some,overtaken_concat]
  simp [note]

theorem Doomed.follows (other : event ≠ some (.looked p key)) (doomed : Doomed s trace p key) :
    Doomed s' (trace ++ event.toList) p key := by
  rcases doomed with flagged | lapsed
  · exact Or.inl (overtaken_stays other flagged)
  · rcases after.entry key with same | gone | ⟨val,inserted,_⟩
    · refine Or.inr fun v found standing => ?_
      rw [same] at found
      exact lapsed v found (standing.earlier after.mono)
    · exact Or.inr fun v found => by simp [gone] at found
    · exact Or.inl (overtaken_inserted inserted)

theorem Sound.follows (other : ∀ key, event ≠ some (.looked p key)) {proc : Process}
    (sound : Sound s trace p proc) : Sound s' (trace ++ event.toList) p proc := by
  cases proc with
  | sweepNext sweep now expired =>
    exact ⟨UInt64.le_trans sound.1 after.mono,fun key member => (sound.2 key member).follows after (other key)⟩
  | sweepLook sweep now expired k =>
    exact ⟨UInt64.le_trans sound.1 after.mono,fun key member => (sound.2 key member).follows after (other key)⟩
  | sweepRemove sweep expired => exact fun key member => (sound key member).follows after (other key)
  | checkRemove key => exact Doomed.follows after (other key) sound
  | checkClock key v =>
    obtain ⟨dated,flagged | same⟩ := sound
    all_goals refine ⟨dated,?_⟩
    · exact Or.inl (overtaken_stays (other key) flagged)
    · rcases after.entry key with kept | gone | ⟨val,inserted,_⟩
      · exact Or.inr fun w found => same w (kept.symm.trans found)
      · exact Or.inr fun w found => by simp [gone] at found
      · exact Or.inl (overtaken_inserted inserted)
  | _ => trivial

end Follows

/-! ## The steps of a process -/

section Operate
variable {capacity p : Nat} {next : Option Addr6} {fault : Bool} {s : System} {trace : List Event}
  {proc : Process}

def System.made (s : System) (p : Nat) (done : Bans × Process × Option Event) : System :=
  {s with bans := done.1,procs := Function.update s.procs p done.2.1}

theorem made_follows (proc : Process) : Follows s
    (s.made p (operate capacity s.mono s.epoch p next fault s.bans proc))
    (operate capacity s.mono s.epoch p next fault s.bans proc).2.2 :=
  ⟨UInt64.le_refl _,operate_bans capacity s.mono s.epoch p next fault s.bans proc⟩

theorem operate_own {q : Nat} {key : Addr6} (seen : (operate capacity s.mono s.epoch p next fault s.bans proc).2.2 = some (.looked q key) ∨
    (operate capacity s.mono s.epoch p next fault s.bans proc).2.2 = some (.cleared q key)) : q = p := by
  cases proc with
  | sweepRemove sweep expired =>
    cases expired with
    | nil => simp [operate] at seen
    | cons k rest =>
      simp only [operate] at seen
      split_ifs at seen <;> simp at seen
      exact seen.1.symm
  | _ =>
    simp only [operate] at seen
    (repeat' split at seen) <;> simp at seen <;> exact seen.1.symm

theorem operate_cleared {q : Nat} {key : Addr6} (sound : Sound s trace p proc)
    (cleared : (operate capacity s.mono s.epoch p next fault s.bans proc).2.2 = some (.cleared q key)) :
    Doomed s trace q key := by
  obtain rfl := operate_own (Or.inr cleared)
  cases proc with
  | sweepRemove sweep expired =>
    cases expired with
    | nil => simp [operate] at cleared
    | cons k rest =>
      simp only [operate] at cleared
      split_ifs at cleared
      simp only [Option.some.injEq,Event.cleared.injEq,true_and] at cleared
      exact sound key (by simp [cleared])
  | checkRemove k =>
    simp only [operate] at cleared
    split_ifs at cleared
    simp only [Option.some.injEq,Event.cleared.injEq,true_and] at cleared
    rw [← cleared]
    exact sound
  | _ =>
    simp only [operate] at cleared
    (repeat' split at cleared) <;> simp at cleared

theorem operate_sound (sound : Sound s trace p proc) :
    Sound (s.made p (operate capacity s.mono s.epoch p next fault s.bans proc))
      (trace ++ (operate capacity s.mono s.epoch p next fault s.bans proc).2.2.toList) p
      (operate capacity s.mono s.epoch p next fault s.bans proc).2.1 := by
  have after := @made_follows capacity p next fault s proc
  cases proc with
  | sweepClock sweep => exact ⟨UInt64.le_refl _,by simp⟩
  | sweepNext sweep now expired =>
    have kept : now ≤ s.mono ∧ ∀ key ∈ expired, Doomed s (trace ++ []) p key := by
      rw [List.append_nil]
      exact sound
    simp only [operate]
    split_ifs
    · trivial
    · split
      · exact kept.2
      · dsimp only
        split_ifs <;> exact kept
  | sweepLook sweep now expired key =>
    have kept : now ≤ s.mono ∧ ∀ key ∈ expired, Doomed s (trace ++ []) p key := by
      rw [List.append_nil]
      exact sound
    cases found : s.bans.lookup key with
    | none =>
      simp only [operate,found]
      split_ifs
      · trivial
      · exact kept
    | some v =>
      simp only [operate,found] at after ⊢
      split_ifs at after ⊢ with failed lapsed
      · trivial
      · refine ⟨sound.1,fun k member => ?_⟩
        by_cases same : k = key
        · refine Or.inr fun w other standing => ?_
          have lapses : ¬ v.Standing now := BanVal.not_standing.mpr (by simpa using lapsed)
          rw [same] at other
          obtain rfl := Option.some.inj (found.symm.trans other)
          exact lapses (standing.earlier sound.1)
        · have before : k ∈ expired := by simpa [same] using member
          have other : some (Event.looked p key) ≠ some (.looked p k) := by
            simpa using fun swap => same swap.symm
          exact (sound.2 k before).follows after other
      · exact kept
  | sweepRemove sweep expired =>
    cases expired with
    | nil =>
      simp only [operate,swept]
      split <;> trivial
    | cons key rest =>
      have others : ∀ k ∈ rest, Doomed s trace p k := fun k member => sound k (by simp [member])
      simp only [operate] at after ⊢
      split_ifs at after ⊢
      · exact fun k member => (others k member).follows after (by simp)
      · exact fun k member => (others k member).follows after (by simp)
  | checkLook key =>
    simp only [operate]
    split
    · next v looked =>
      split_ifs with permanent
      · trivial
      · refine ⟨by simpa using permanent,Or.inr fun w found => ?_⟩
        have seen : s.bans.lookup key = some v := by
          split_ifs at looked
          exact looked
        exact Option.some.inj (found.symm.trans seen)
    · trivial
  | checkClock key v =>
    simp only [operate]
    split_ifs with standing
    · trivial
    · have lapsed : ¬ v.Standing s.mono := BanVal.not_standing.mpr ⟨sound.1,UInt64.not_lt.mp standing⟩
      rcases sound.2 with flagged | same
      · exact Or.inl (by simpa using flagged)
      · exact Or.inr fun w found stands => lapsed (same w found ▸ stands)
  | _ =>
    simp only [operate]
    (repeat' split) <;> trivial

end Operate

/-! ## What becomes of a ban -/

def BanVal.Within (v w : BanVal) : Prop :=
  w.expiresMonoNs = 0 ∨ v.expiresMonoNs ≠ 0 ∧ v.expiresMonoNs ≤ w.expiresMonoNs

theorem BanVal.Within.refl (v : BanVal) : v.Within v := by
  by_cases permanent : v.expiresMonoNs = 0
  · exact Or.inl permanent
  · exact Or.inr ⟨permanent,UInt64.le_refl _⟩

theorem BanVal.Within.standing {v w : BanVal} {now : UInt64} (within : v.Within w) (standing : v.Standing now) :
    w.Standing now := by
  rcases within with permanent | ⟨dated,later⟩
  · exact Or.inl permanent
  · rcases standing with permanent | running
    · exact absurd permanent dated
    · exact Or.inr (UInt64.lt_of_lt_of_le running later)

/-- After a ban is inserted its source is not unbanned, not given a shorter ban, and not
cleared by a clean-up that a ban has overtaken since its look-up. -/
structure Undisturbed (before : List Event) (key : Addr6) (val : BanVal) (after : List Event) : Prop where
  unbanned : .unbanned key ∉ after
  replaced : ∀ w, .inserted key w ∈ after → val.Within w
  cleared : ∀ p early late, after = early ++ .cleared p key::late →
    overtaken p key (before ++ .inserted key val::early) = false

theorem Undisturbed.earlier {before after : List Event} {key : Addr6} {val : BanVal} {last : Event}
    (undisturbed : Undisturbed before key val (after ++ [last])) : Undisturbed before key val after where
  unbanned member := undisturbed.unbanned (List.mem_append_left _ member)
  replaced w member := undisturbed.replaced w (List.mem_append_left _ member)
  cleared p early late same := undisturbed.cleared p early (late ++ [last]) (by simp [same])

/-- Every ban that has been inserted, and not disturbed since, is in the map until it expires. -/
def Stays (s : System) (trace : List Event) : Prop :=
  ∀ before key val after, trace = before ++ .inserted key val::after → Undisturbed before key val after →
    val.Standing s.mono → ∃ w, s.bans.lookup key = some w ∧ val.Within w

theorem Stays.follows {s s' : System} {trace : List Event} {event : Option Event} (stays : Stays s trace)
    (after : Follows s s' event)
    (doomed : ∀ p key, event = some (.cleared p key) → Doomed s trace p key) :
    Stays s' (trace ++ event.toList) := by
  intro before key val rest same undisturbed standing
  have stood : val.Standing s.mono := standing.earlier after.mono
  have bans := after.bans
  rcases event with _ | event
  · rw [Option.toList_none,List.append_nil] at same
    rw [bans]
    exact stays before key val rest same undisturbed stood
  · rcases List.eq_nil_or_concat rest with rfl | ⟨earlier,last,rfl⟩
    · obtain ⟨_,single⟩ := List.append_inj' same rfl
      obtain rfl : event = .inserted key val := by simpa using single
      exact ⟨val,by rw [bans]; exact AList.lookup_insert s.bans,.refl val⟩
    · rw [List.concat_eq_append] at same undisturbed
      rw [← List.cons_append,← List.append_assoc] at same
      obtain ⟨traced,single⟩ := List.append_inj' same rfl
      obtain rfl : event = last := by simpa using single
      obtain ⟨w,found,within⟩ := stays before key val earlier traced undisturbed.earlier stood
      rw [bans]
      cases event with
      | inserted k v =>
        by_cases own : key = k
        · subst own
          exact ⟨v,AList.lookup_insert s.bans,undisturbed.replaced v (by simp)⟩
        · exact ⟨w,(AList.lookup_insert_ne own).trans found,within⟩
      | looked q k => exact ⟨w,found,within⟩
      | unbanned k =>
        have other : key ≠ k := by
          rintro rfl
          exact undisturbed.unbanned (by simp)
        exact ⟨w,(AList.lookup_erase_ne other).trans found,within⟩
      | cleared q k =>
        have other : key ≠ k := by
          rintro rfl
          have free := undisturbed.cleared q earlier [] (by simp)
          rcases doomed q key rfl with flagged | lapsed
          · simp [traced,free] at flagged
          · exact lapsed w found (within.standing stood)
        exact ⟨w,(AList.lookup_erase_ne other).trans found,within⟩

def System.Idle (s : System) : Prop := ∀ p, ∃ success, s.procs p = .exited success

def Guarded (s : System) (trace : List Event) : Prop := (∀ p, Sound s trace p (s.procs p)) ∧ Stays s trace

theorem launch_sound {s : System} {trace : List Event} {p : Nat} (command : Command) :
    Sound s trace p (launch command) := by
  cases command with
  | list => trivial
  | stats => trivial
  | _ =>
    simp only [launch,launch.onAddress]
    split <;> trivial

theorem step_guarded {capacity : Nat} {s : System} {trace : List Event} (guarded : Guarded s trace)
    (label : Label) : Guarded (s.step capacity label).1 (trace ++ (s.step capacity label).2) := by
  obtain ⟨sound,stays⟩ := guarded
  cases label with
  | clock mono epoch =>
    have after : Follows s (s.step capacity (.clock mono epoch)).1 none := by
      simp only [System.step]
      split_ifs with forward
      · exact ⟨forward,rfl⟩
      · exact ⟨UInt64.le_refl _,rfl⟩
    have procs : (s.step capacity (.clock mono epoch)).1.procs = s.procs := by
      simp only [System.step]
      split_ifs <;> rfl
    refine ⟨fun p => ?_,stays.follows after (by simp)⟩
    rw [procs]
    exact (sound p).follows after (by simp)
  | launch p command =>
    simp only [System.step]
    split
    · next success idle =>
      have after : Follows s {s with procs := Function.update s.procs p (launch command)} none :=
        ⟨UInt64.le_refl _,rfl⟩
      refine ⟨fun q => ?_,stays.follows after (by simp)⟩
      by_cases own : q = p
      · subst own
        simp only [Function.update_self]
        exact launch_sound command
      · simp only [Function.update_of_ne own]
        exact (sound q).follows after (by simp)
    · simpa using ⟨sound,stays⟩
  | act p next fault =>
    have after := @made_follows capacity p next fault s (s.procs p)
    refine ⟨fun q => ?_,stays.follows after fun q key cleared => operate_cleared (sound p) cleared⟩
    by_cases own : q = p
    · subst own
      have kept := @operate_sound capacity q next fault s trace _ (sound q)
      simp only [System.step,Function.update_self]
      exact kept
    · simp only [System.step,Function.update_of_ne own]
      exact (sound q).follows after fun key seen => own (operate_own (Or.inl seen))

/-- Whatever the processes do, in whatever order: a ban that has been inserted is in force
until it expires, unless its source is unbanned, is given a shorter ban, or is cleared by a
clean-up that a ban of the source has overtaken. -/
theorem ban_stays (capacity : Nat) (s : System) (idle : s.Idle) (labels : List Label) (before : List Event)
    (key : Addr6) (val : BanVal) (after : List Event)
    (traced : (run (System.step capacity) s labels).2 = before ++ .inserted key val::after)
    (undisturbed : Undisturbed before key val after)
    (standing : val.Standing (run (System.step capacity) s labels).1.mono) :
    Banned (run (System.step capacity) s labels).1.bans key (run (System.step capacity) s labels).1.mono := by
  have guarded : Guarded (run (System.step capacity) s labels).1 (run (System.step capacity) s labels).2 := by
    refine invariant (P := fun _ s trace => Guarded s trace) ⟨fun p => ?_,?_⟩ ?_ labels
    · obtain ⟨success,exits⟩ := idle p
      rw [exits]
      trivial
    · intro before key val after same
      simp at same
    · intro _ s trace label guarded
      exact step_guarded guarded label
  obtain ⟨w,found,within⟩ := guarded.2 before key val after traced undisturbed standing
  exact ⟨w,found,within.standing standing⟩

def resting (bans : Bans) : System := ⟨bans,10,10,fun _ => .exited true⟩

def neighbour : Addr6 := ⟨.replicate 16 8⟩

/-- A ban of a minute, made while another process lists the bans and clears one of a
neighbour; a check of it, and a longer ban by a fourth process ten seconds later. -/
def crowded : List Label :=
  [.launch 1 .list,.act 1 none false,.act 1 (some neighbour) false,.launch 0 (.ban (some (.v6 node)) 60),.act 0 none false,
    .act 1 none false,.act 0 none false,.launch 2 (.check (some (.v6 node))),.act 2 none false,.act 1 none false,
    .act 1 none false,.clock 10000000000 20,.act 2 none false,.launch 3 (.ban (some (.v6 node)) 120),.act 3 none false,
    .act 3 none false]

theorem ban_stays_crowded :
    let done := run (System.step maxTracked) (resting (AList.singleton neighbour ⟨5,1⟩)) crowded
    Banned done.1.bans node done.1.mono := by
  have undisturbed : Undisturbed [.looked 1 neighbour] node ⟨60000000010,70⟩
      [.looked 2 node,.cleared 1 neighbour,.inserted node ⟨130000000000,140⟩] := by
    refine ⟨by decide +kernel,?_,?_⟩
    · intro w replaced
      obtain rfl : w = ⟨130000000000,140⟩ := by simpa using replaced
      exact Or.inr (by decide)
    · intro p early late same
      have cleared : .cleared p node ∈ [Event.looked 2 node,.cleared 1 neighbour,.inserted node ⟨130000000000,140⟩] := by
        rw [same]
        simp
      have apart : node ≠ neighbour := by decide
      simp [apart] at cleared
  exact ban_stays maxTracked (resting (AList.singleton neighbour ⟨5,1⟩)) (fun _ => ⟨true,rfl⟩) crowded
    [.looked 1 neighbour] node ⟨60000000010,70⟩
    [.looked 2 node,.cleared 1 neighbour,.inserted node ⟨130000000000,140⟩] (by decide +kernel) undisturbed
    (Or.inr (by decide +kernel))

/-- `check` finds a lapsed entry; another process bans the source for ever; `check` goes on
to remove what it found. -/
theorem ban_lost : ¬ ∀ capacity (s : System), s.Idle → ∀ labels before key val after,
    (run (System.step capacity) s labels).2 = before ++ .inserted key val::after →
    .unbanned key ∉ after → (∀ w, .inserted key w ∉ after) →
    val.Standing (run (System.step capacity) s labels).1.mono →
    Banned (run (System.step capacity) s labels).1.bans key (run (System.step capacity) s labels).1.mono := by
  intro claim
  have banned := claim maxTracked (resting (AList.singleton node ⟨5,1⟩)) (fun _ => ⟨true,rfl⟩)
    [.launch 0 (.check (some (.v6 node))),.launch 1 (.ban (some (.v6 node)) (-1)),.act 0 none false,
      .act 1 none false,.act 0 none false,.act 1 none false,.act 0 none false]
    [.looked 0 node] node ⟨0,0⟩ [.cleared 0 node] (by decide +kernel) (by decide +kernel) (by simp)
    (Or.inl rfl)
  obtain ⟨v,found,_⟩ := banned
  have gone : (run (System.step maxTracked) (resting (AList.singleton node ⟨5,1⟩))
    [.launch 0 (.check (some (.v6 node))),.launch 1 (.ban (some (.v6 node)) (-1)),.act 0 none false,
      .act 1 none false,.act 0 none false,.act 1 none false,.act 0 none false]).1.bans.lookup node = none := by
    decide +kernel
  rw [gone] at found
  cases found

end FipsShield.Guard
