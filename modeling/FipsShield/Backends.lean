import FipsShield.Banlist.Histories
import FipsShield.Guard.Address
import Mathlib.Algebra.Group.Nat.Defs

/-! The two enforcement backends side by side (`guard/shield-ban` with
`SHIELD_BAN_ALSO_FILE`): every command goes to the banlist file and then to the guard, whose
clocks, units and ways to say "for ever" differ, and their checks answer alike. -/
namespace FipsShield.Backends
open Text Numeral Banlist Guard

/-- The wall clock runs ahead of the monotonic one by a constant, in nanoseconds. -/
structure Clocks where
  ahead : Nat

/-- `date +%s` at a monotonic instant. -/
def Clocks.seconds (clocks : Clocks) (t : Nat) : Nat := (t + clocks.ahead) / 1000000000

def mono (t : Nat) : UInt64 := .ofNat t

inductive Command where
  | ban (ip : Str) (ttl : Int)
  | unban (ip : Str)

def Command.ip : Command → Str
  | .ban ip _ | .unban ip => ip

/-- A command and the instants at which it reads a clock: the script for the expiry and for
its filter, then the guard for the deadline, for the epoch and for a sweep. -/
structure Applied where
  command : Command
  first : Nat
  last : Nat
  deadline : Nat
  epoch : Nat
  sweep : Nat
  ordered : first ≤ last ∧ last ≤ deadline ∧ deadline ≤ epoch ∧ epoch ≤ sweep

structure World where
  file : Option Str
  bans : Bans

variable (clocks : Clocks) (capacity : Nat)

/-- `fips-guard ban ip ttl`: the seconds have to be a 64-bit integer. -/
def guardBan (x : Applied) (ip : Str) (ttl : Int) (bans : Bans) : Bool × Bans :=
  if representable ttl then
    let done := cmdBan capacity (mono x.deadline) (.ofNat (clocks.seconds x.epoch)) (mono x.sweep) (parseIp ip)
      (.ofInt ttl) bans
    (done.1.isOk,done.2)
  else (false,bans)

def apply (w : World) (x : Applied) : World × List Bool :=
  match x.command with
  | .ban ip ttl =>
    let file := Banlist.ban (clocks.seconds x.first) (clocks.seconds x.last) ip (intText ttl) w.file
    let (ok,bans) := guardBan clocks capacity x ip ttl w.bans
    (⟨file.file,bans⟩,[file.status = 0,ok])
  | .unban ip =>
    let file := Banlist.unban (clocks.seconds x.last) ip w.file
    let done := cmdUnban (parseIp ip) w.bans
    (⟨file.file,done.2⟩,[file.status = 0,done.1.isOk])

def run (history : List Applied) : World × List Bool := Transducer.run (apply clocks capacity) ⟨none,∅⟩ history

/-- `shield-ban check` and `fips-guard check` at an instant: whether they report a ban. -/
def fileBanned (w : World) (ip : Str) (t : Nat) : Bool := (check (clocks.seconds t) ip w.file).status = 0

def guardBanned (w : World) (ip : Str) (t : Nat) : Bool :=
  match (cmdCheck (mono t) (parseIp ip) w.bans).1 with
  | .ok banned => banned
  | .error _ => false

/-! ## What each backend stores -/

/-- The instant, in nanoseconds of the monotonic clock, of the expiry in the file. -/
def fileEnds (x : Applied) (ttl : Int) : Int := (clocks.seconds x.first + ttl) * 1000000000 - clocks.ahead

/-- The deadline in the map, which is at most the last instant of the clock. -/
def guardEnds (x : Applied) (ttl : Int) : Int := min (x.deadline + ttl * 1000000000) (2 ^ 64 - 1)

/-- Within a second of where the ban ends, from the first of the two stored instants to the last. -/
def Near (x : Applied) (t : Nat) : Prop :=
  match x.command with
  | .ban _ ttl =>
    0 < ttl ∧ min (fileEnds clocks x ttl) (guardEnds x ttl) ≤ t + 1000000000 ∧
      t ≤ max (fileEnds clocks x ttl) (guardEnds x ttl) + 1000000000
  | .unban _ => False

instance (x : Applied) (t : Nat) : Decidable (Near clocks x t) :=
  match x with
  | ⟨.ban _ _,_,_,_,_,_,_⟩ => inferInstanceAs (Decidable (_ ∧ _ ∧ _))
  | ⟨.unban _,_,_,_,_,_,_⟩ => inferInstanceAs (Decidable False)

/-- Within a second of one of the two instants at which a ban ends. -/
def Ending (x : Applied) (t : Nat) : Prop :=
  match x.command with
  | .ban _ ttl =>
    0 < ttl ∧ ((t - fileEnds clocks x ttl).natAbs ≤ 1000000000 ∨ (t - guardEnds x ttl).natAbs ≤ 1000000000)
  | .unban _ => False

def latest (history : List Applied) (ip : Str) : Option Applied := history.reverse.find? fun x => x.command.ip = ip

/-! ## The guard -/

theorem mono_toNat {t : Nat} (inside : t < 2 ^ 64) : (mono t).toNat = t := by
  rw [mono,UInt64.toNat_ofNat']
  exact Nat.mod_eq_of_lt inside

theorem mono_le {t later : Nat} (inside : later < 2 ^ 64) (passes : t ≤ later) : mono t ≤ mono later := by
  rw [UInt64.le_iff_toNat_le,mono_toNat inside,mono_toNat (by omega)]
  exact passes

/-- A ban of the guard stands for ever, or until its deadline, saturated ones included. -/
theorem banVal_standing {ttl : Int} (fits : representable ttl = true) (x : Applied) (inside : x.deadline < 2 ^ 64)
    (epoch : UInt64) {t : Nat} (date : t < 2 ^ 64) :
    (banVal (.ofInt ttl) (mono x.deadline) epoch).Standing (mono t) ↔ ttl ≤ 0 ∨ (t : Int) < guardEnds x ttl := by
  simp only [representable,Bool.and_eq_true,decide_eq_true_eq] at fits
  have value : (Int64.ofInt ttl).toInt = ttl := Int64.toInt_ofInt_of_le fits.1 fits.2
  have sign : Int64.ofInt ttl ≤ 0 ↔ ttl ≤ 0 := by
    rw [Int64.le_iff_toInt_le,value]
    rfl
  rw [banVal_until,sign,mono_toNat inside,mono_toNat date,value,guardEnds]

theorem insertBan_banned {bans after : Bans} {key : Addr6} {val : BanVal} (inserted : insertBan capacity bans key val = some after)
    (src : Addr6) (now : UInt64) :
    Guard.Banned after src now ↔ if src = key then val.Standing now else Guard.Banned bans src now := by
  rw [insertBan_eq inserted]
  split_ifs with own
  · subst own
    simp [Guard.Banned,AList.lookup_insert]
  · simp [Guard.Banned,AList.lookup_insert_ne own]

/-- A ban that the guard reports as made: its address is banned from then on until the
deadline, and a sweep on the way takes no ban that stands. -/
theorem guardBan_banned {x : Applied} {ip : Str} {ttl : Int} {bans : Bans} {key : Addr6}
    (parsed : parseIp ip = some (.v6 key)) (ok : (guardBan clocks capacity x ip ttl bans).1 = true) {t : Nat}
    (passes : x.sweep ≤ t) (date : t < 2 ^ 64) (src : Addr6) :
    Guard.Banned (guardBan clocks capacity x ip ttl bans).2 src (mono t) ↔
      if src = key then ttl ≤ 0 ∨ (t : Int) < guardEnds x ttl else Guard.Banned bans src (mono t) := by
  have within : x.deadline < 2 ^ 64 := by
    have order := x.ordered
    omega
  have fits : representable ttl = true := by
    by_contra unfit
    rw [guardBan,if_neg unfit] at ok
    contradiction
  have standing := banVal_standing fits x within (.ofNat (clocks.seconds x.epoch)) date
  rw [guardBan,if_pos fits] at ok ⊢
  simp only [cmdBan,parsed,parseV6] at ok ⊢
  generalize banVal (.ofInt ttl) (mono x.deadline) (.ofNat (clocks.seconds x.epoch)) = val at ok standing ⊢
  cases first : insertBan capacity bans key val with
  | some after =>
    dsimp only
    rw [insertBan_banned capacity first,standing]
  | none =>
    simp only [first] at ok
    cases second : insertBan capacity (pruneExpired (mono x.sweep) bans).2 key val with
    | some after =>
      dsimp only
      rw [insertBan_banned capacity second,standing,pruneExpired_banned (mono_le date passes)]
    | none => simp [second,Except.isOk,Except.toBool] at ok

theorem cmdUnban_banned {ip : Str} {key : Addr6} (parsed : parseIp ip = some (.v6 key)) (bans : Bans) (src : Addr6)
    (now : UInt64) :
    Guard.Banned (cmdUnban (parseIp ip) bans).2 src now ↔ if src = key then False else Guard.Banned bans src now := by
  have gone : (bans.erase key).lookup key = none := AList.lookup_erase key bans
  simp only [cmdUnban,parsed,parseV6,gone,Option.isSome_none,Bool.false_eq_true,if_false]
  split_ifs with own
  · subst own
    simp [Guard.Banned]
  · simp [Guard.Banned,AList.lookup_erase_ne own]

/-! ## Both -/

def GuardBans (x : Applied) (t : Nat) : Prop :=
  match x.command with
  | .ban _ ttl => ttl ≤ 0 ∨ (t : Int) < guardEnds x ttl
  | .unban _ => False

def script (x : Applied) : Banlist.Command :=
  match x.command with
  | .ban ip ttl => .ban (clocks.seconds x.first) (clocks.seconds x.last) ip ttl
  | .unban ip => .unban (clocks.seconds x.last) ip

theorem script_ip (x : Applied) : (script clocks x).ip = x.command.ip := by
  cases command : x.command <;> simp [script,command,Banlist.Command.ip,Command.ip]

/-- A command on a canonical address, with an expiry below 2^53, read before an instant. -/
structure Proper (x : Applied) (t : Nat) : Prop where
  canonical : ∃ a, Canonical x.command.ip a
  small : ∀ ip ttl, x.command = .ban ip ttl → clocks.seconds x.first + ttl < 2 ^ 53
  past : x.sweep ≤ t

/-- The invariant of a history: the file is the store of what was commanded, and the map
bans by the last command on each address. -/
structure Kept (history : List Applied) (w : World) (t : Nat) : Prop where
  file : Holds w.file (Expiring.store stands (history.map fun x => (script clocks x).write))
  guard : ∀ ip a, Canonical ip a → (Guard.Banned w.bans a (mono t) ↔ ∃ x ∈ latest history ip, GuardBans x t)

theorem latest_concat (history : List Applied) (x : Applied) (ip : Str) :
    latest (history ++ [x]) ip = if x.command.ip = ip then some x else latest history ip := by
  simp only [latest,List.reverse_append,List.reverse_singleton,List.singleton_append,List.find?_cons]
  split <;> simp_all

variable {clocks capacity}

/-- What the guard does on one address leaves the others as the history had them. -/
theorem Kept.guarded {history : List Applied} {w : World} {x : Applied} {t : Nat} (kept : Kept clocks history w t)
    {key : Addr6} (canonical : Canonical x.command.ip key) {bans : Bans}
    (own : ∀ src, Guard.Banned bans src (mono t) ↔ if src = key then GuardBans x t else Guard.Banned w.bans src (mono t))
    (ip : Str) (a : Addr6) (address : Canonical ip a) :
    Guard.Banned bans a (mono t) ↔ ∃ y ∈ latest (history ++ [x]) ip, GuardBans y t := by
  rw [own,latest_concat]
  by_cases same : x.command.ip = ip
  · have keys : a = key := canonical_key (same ▸ address) canonical
    rw [if_pos keys,if_pos same]
    simp
  · have keys : a ≠ key := by
      rintro rfl
      exact same (canonical_unique canonical address)
    rw [if_neg keys,if_neg same]
    exact kept.guard ip a address

theorem seconds_mono {t later : Nat} (passes : t ≤ later) : clocks.seconds t ≤ clocks.seconds later :=
  Nat.div_le_div_right (Nat.add_le_add_right passes _)

theorem apply_kept {history : List Applied} {w : World} {x : Applied} {t : Nat} (kept : Kept clocks history w t)
    (proper : Proper clocks x t) (date : t < 2 ^ 64) (early : clocks.seconds t < 2 ^ 53)
    (ok : ∀ done ∈ (apply clocks capacity w x).2, done = true) :
    Kept clocks (history ++ [x]) (apply clocks capacity w x).1 t := by
  obtain ⟨key,canonical⟩ := proper.canonical
  have address : Address x.command.ip := canonical.2 ▸ canonicalText_address key
  have filtered : clocks.seconds x.last < 2 ^ 53 := by
    have order := x.ordered
    have past := proper.past
    have before : clocks.seconds x.last ≤ clocks.seconds t := seconds_mono (by omega)
    omega
  have written {file : Option Str} (ran : file = ((script clocks x).run w.file).file) (sound : (script clocks x).Sound)
      (held : (script clocks x).Held) (time : (script clocks x).seconds < 2 ^ 53) :
      Holds file (Expiring.store stands ((history ++ [x]).map fun x => (script clocks x).write)) := by
    rw [ran,List.map_append,List.map_singleton,Expiring.store_append]
    exact (run_holds sound held time kept.file).2.2
  cases command : x.command with
  | ban ip ttl =>
    rw [command] at address canonical
    have banned : (guardBan clocks capacity x ip ttl w.bans).1 = true := ok _ (by simp [apply,command])
    have fits : representable ttl = true := by
      by_contra unfit
      rw [guardBan,if_neg unfit] at banned
      contradiction
    simp only [representable,Bool.and_eq_true,decide_eq_true_eq] at fits
    have ran : script clocks x = .ban (clocks.seconds x.first) (clocks.seconds x.last) ip ttl := by
      simp [script,command]
    have small := proper.small ip ttl command
    constructor
    · rw [ran] at written
      exact written (by simp [apply,command,Banlist.Command.run]) ⟨address,small⟩ fits.1 filtered
    · have own (src : Addr6) := guardBan_banned clocks capacity canonical.1 banned proper.past date src
      have bans : GuardBans x t ↔ ttl ≤ 0 ∨ (t : Int) < guardEnds x ttl := by simp [GuardBans,command]
      simp only [← bans] at own
      have after : (apply clocks capacity w x).1.bans = (guardBan clocks capacity x ip ttl w.bans).2 := by
        simp [apply,command]
      rw [after]
      exact kept.guarded (by rw [command]; exact canonical) own
  | unban ip =>
    rw [command] at address canonical
    have ran : script clocks x = .unban (clocks.seconds x.last) ip := by simp [script,command]
    constructor
    · rw [ran] at written
      exact written (by simp [apply,command,Banlist.Command.run]) address trivial filtered
    · have own (src : Addr6) := cmdUnban_banned canonical.1 w.bans src (mono t)
      have bans : GuardBans x t ↔ False := by simp [GuardBans,command]
      simp only [← bans] at own
      have after : (apply clocks capacity w x).1.bans = (cmdUnban (parseIp ip) w.bans).2 := by simp [apply,command]
      rw [after]
      exact kept.guarded (by rw [command]; exact canonical) own

theorem run_kept {history : List Applied} {t : Nat} (proper : ∀ x ∈ history, Proper clocks x t) (date : t < 2 ^ 64)
    (early : clocks.seconds t < 2 ^ 53) (ok : ∀ done ∈ (run clocks capacity history).2, done = true) :
    Kept clocks history (run clocks capacity history).1 t := by
  induction history using List.reverseRecOn with
  | nil =>
    refine ⟨⟨rfl,by simp [Expiring.store]⟩,?_⟩
    intro ip a _
    refine iff_of_false ?_ (by simp [latest])
    rintro ⟨v,found,_⟩
    simp [run] at found
  | append_singleton before x ih =>
    rw [run,Transducer.run_concat] at ok ⊢
    have earlier := ih (fun y member => proper y (by simp [member])) fun done member =>
      ok done (List.mem_append_left _ member)
    exact apply_kept earlier (proper x (by simp)) date early fun done member => ok done (List.mem_append_right _ member)

theorem guardBanned_iff {ip : Str} {a : Addr6} (canonical : Canonical ip a) (w : World) (t : Nat) :
    guardBanned w ip t = true ↔ Guard.Banned w.bans a (mono t) := by
  have drops : (cmdCheck (mono t) (some (.v6 a)) w.bans).1 = .ok true ↔ Drops w.bans (packetFrom (.v6 a)) (mono t) :=
    cmdCheck_drops (mono t) (.v6 a)
  rw [packetFrom,drops_iff] at drops
  rw [guardBanned,canonical.1,← drops]
  cases (cmdCheck (mono t) (some (.v6 a)) w.bans).1 with
  | error e => simp
  | ok banned => simp

theorem fileBanned_iff {history : List Applied} {w : World} {t : Nat} (kept : Kept clocks history w t)
    (proper : ∀ x ∈ history, Proper clocks x t) (early : clocks.seconds t < 2 ^ 53) {ip : Str} (address : Address ip) :
    fileBanned clocks w ip t = true ↔ ∃ x ∈ latest history ip, (script clocks x).Bans (clocks.seconds t * 1000) := by
  have instant : clocks.seconds t * 1000 / 1000 = clocks.seconds t := Nat.mul_div_cancel _ (by decide)
  have sound : ∀ c ∈ history.map (script clocks), c.Sound := by
    intro c member
    obtain ⟨x,within,rfl⟩ := List.mem_map.mp member
    obtain ⟨⟨key,canonical⟩,small,_⟩ := proper x within
    have address : Address x.command.ip := canonical.2 ▸ canonicalText_address key
    cases command : x.command with
    | ban ip ttl =>
      rw [command] at address
      simpa [script,command,Banlist.Command.Sound] using ⟨address,small ip ttl command⟩
    | unban ip =>
      rw [command] at address
      simpa [script,command,Banlist.Command.Sound,Command.ip] using address
  have past : ∀ c ∈ history.map (script clocks), c.seconds ≤ clocks.seconds t * 1000 / 1000 := by
    intro c member
    obtain ⟨x,within,rfl⟩ := List.mem_map.mp member
    have order := x.ordered
    have before := (proper x within).past
    have filtered : clocks.seconds x.last ≤ clocks.seconds t := seconds_mono (by omega)
    rw [instant]
    cases command : x.command <;> simpa [script,command,Banlist.Command.seconds] using filtered
  have commanded := banned_iff sound past ip
  rw [instant,List.map_map] at commanded
  have last : (history.map (script clocks)).reverse.find? (fun c => c.ip = ip) = (latest history ip).map (script clocks) := by
    rw [latest,← List.map_reverse,List.find?_map]
    congr 2
    funext x
    exact decide_eq_decide.mpr (by rw [script_ip])
  rw [fileBanned,decide_eq_true_eq,check_status address early kept.file]
  refine commanded.trans ?_
  rw [Banlist.Banned,last]
  constructor
  · rintro ⟨c,found,bans⟩
    obtain ⟨x,own,rfl⟩ := Option.map_eq_some_iff.mp found
    exact ⟨x,own,bans⟩
  · rintro ⟨x,own,bans⟩
    exact ⟨script clocks x,Option.map_eq_some_iff.mpr ⟨x,own,rfl⟩,bans⟩

/-- Away from the end of a ban it stands by the seconds of the file exactly if it does by
the deadline of the guard. -/
theorem bans_alike {x : Applied} {t : Nat} (apart : ¬ Near clocks x t) :
    (script clocks x).Bans (clocks.seconds t * 1000) ↔ GuardBans x t := by
  cases command : x.command with
  | unban ip => simp [script,command,Banlist.Command.Bans,GuardBans]
  | ban ip ttl =>
    simp only [Near,command,not_and,not_le] at apart
    simp only [script,command,Banlist.Command.Bans,GuardBans]
    by_cases permanent : ttl ≤ 0
    · simp [permanent]
    · have ends : ((clocks.seconds t * 1000 : Nat) : Int) < (clocks.seconds x.first + ttl) * 1000 ↔
          (t : Int) < fileEnds clocks x ttl := by
        have whole : clocks.seconds t = (t + clocks.ahead) / 1000000000 := rfl
        simp only [fileEnds]
        omega
      have outside := apart (by omega)
      simp only [permanent,false_or,ends]
      omega

/-- Whatever was commanded, the two backends answer alike about every address, except near
the end of the ban that the last command on it has made. -/
theorem backends_agree {history : List Applied} {t : Nat} (proper : ∀ x ∈ history, Proper clocks x t) (date : t < 2 ^ 64)
    (early : clocks.seconds t < 2 ^ 53) (ok : ∀ done ∈ (run clocks capacity history).2, done = true) {ip : Str} {a : Addr6}
    (canonical : Canonical ip a) (apart : ∀ x ∈ latest history ip, ¬ Near clocks x t) :
    fileBanned clocks (run clocks capacity history).1 ip t = guardBanned (run clocks capacity history).1 ip t := by
  have kept := run_kept proper date early ok
  have address : Address ip := canonical.2 ▸ canonicalText_address a
  have file := fileBanned_iff kept proper early address
  have guard := (guardBanned_iff canonical (run clocks capacity history).1 t).trans (kept.guard ip a canonical)
  refine Bool.eq_iff_iff.mpr (file.trans (Iff.trans ?_ guard.symm))
  exact exists_congr fun x => and_congr_right fun last => bans_alike (apart x last)

/-- A permanent ban that a shorter one replaces, as both backends see it in between and after. -/
theorem backends_agree_shortened :
    let clocks : Clocks := ⟨1700000000000000000⟩
    let ip := str "fd97::7"
    let history : List Applied := [⟨.ban ip (-1),10,10,20,20,20,by decide⟩,
      ⟨.ban ip 60,1000000000,1000000001,1000000005,1000000006,1000000007,by decide⟩]
    fileBanned clocks (run clocks 65536 history).1 ip 70000000000 =
        guardBanned (run clocks 65536 history).1 ip 70000000000 ∧
      fileBanned clocks (run clocks 65536 (history.take 1)).1 ip 70000000000 = true := by
  intro clocks ip history
  obtain ⟨a,canonical⟩ : ∃ a, Canonical ip a := ⟨ofGroups [0xFD97,0,0,0,0,0,0,7],by decide +kernel⟩
  refine ⟨backends_agree ?_ (by decide) (by decide) (by decide +kernel) canonical (by decide +kernel),by decide +kernel⟩
  intro x member
  simp only [history,List.mem_cons,List.not_mem_nil,or_false] at member
  rcases member with rfl | rfl
  · refine ⟨⟨a,canonical⟩,?_,by decide⟩
    intro ip ttl same
    cases same
    decide
  · refine ⟨⟨a,canonical⟩,?_,by decide⟩
    intro ip ttl same
    cases same
    decide

/-- A guard that reads its clock ten seconds after the script still bans five seconds after
the ban has ended in the file and five before it ends in the map. -/
theorem deadline_late :
    ¬ ∀ (clocks : Clocks) (capacity : Nat) (history : List Applied) (t : Nat), (∀ x ∈ history, Proper clocks x t) →
      t < 2 ^ 64 → clocks.seconds t < 2 ^ 53 → (∀ done ∈ (run clocks capacity history).2, done = true) →
      (∀ x ∈ history, ¬ Ending clocks x t) → ∀ (ip : Str) (a : Addr6), Canonical ip a →
      fileBanned clocks (run clocks capacity history).1 ip t = guardBanned (run clocks capacity history).1 ip t := by
  intro claim
  let clocks : Clocks := ⟨1700000000000000000⟩
  let late : Applied := ⟨.ban (str "fd97::7") 60,0,0,10000000000,10000000000,10000000000,by decide⟩
  have canonical : Canonical (str "fd97::7") (ofGroups [0xFD97,0,0,0,0,0,0,7]) := by decide +kernel
  have proper : Proper clocks late 65000000000 := by
    refine ⟨⟨_,canonical⟩,?_,by decide⟩
    intro ip ttl same
    cases same
    decide
  have apart : ¬ Ending clocks late 65000000000 := by
    simp only [Ending,late]
    decide
  have alike := claim clocks 65536 [late] 65000000000 (by simpa using proper) (by decide) (by decide)
    (by decide +kernel) (by simpa using apart) _ _ canonical
  have differ : fileBanned clocks (run clocks 65536 [late]).1 (str "fd97::7") 65000000000 = false ∧
      guardBanned (run clocks 65536 [late]).1 (str "fd97::7") 65000000000 = true := by decide +kernel
  rw [differ.1,differ.2] at alike
  contradiction

end FipsShield.Backends
