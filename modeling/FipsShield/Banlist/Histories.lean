import FipsShield.Banlist.Reader

/-! Histories of the banlist: commands run one after another, and a worker that checks
addresses between them. What the script and the worker answer is what was commanded last. -/
namespace FipsShield.Banlist
open Text Numeral

/-- A command and its readings of the clock, in seconds. -/
inductive Command where
  | ban (first last : Nat) (ip : Str) (ttl : Int)
  | unban (now : Nat) (ip : Str)

namespace Command

def ip : Command → Str
  | .ban _ _ ip _ | .unban _ ip => ip

/-- The reading it filters the file by. -/
def seconds : Command → Nat
  | .ban _ last _ _ => last
  | .unban now _ => now

def run : Command → Option Str → Outcome
  | .ban first last ip ttl => Banlist.ban first last ip (intText ttl)
  | .unban now ip => Banlist.unban now ip

/-- It bans its address at an instant in milliseconds, as long as it is the last one. -/
def Bans : Command → Nat → Prop
  | .ban first _ _ ttl,now => ttl ≤ 0 ∨ (now : Int) < (first + ttl) * 1000
  | .unban _ _,_ => False

instance (c : Command) (now : Nat) : Decidable (c.Bans now) :=
  match c with
  | .ban _ _ _ _ => inferInstanceAs (Decidable (_ ∨ _))
  | .unban _ _ => inferInstanceAs (Decidable False)

/-- An address, and an expiry below 2^53. -/
def Sound : Command → Prop
  | .ban first _ ip ttl => Address ip ∧ first + ttl < 2 ^ 53
  | .unban _ ip => Address ip

/-- The shell can read the seconds of a ban. -/
def Held : Command → Prop
  | .ban _ _ _ ttl => -2 ^ 63 ≤ ttl
  | .unban _ _ => True

instance (c : Command) : Decidable c.Sound :=
  match c with
  | .ban _ _ _ _ => inferInstanceAs (Decidable (_ ∧ _))
  | .unban _ _ => inferInstanceAs (Decidable (Address _))

instance (c : Command) : Decidable c.Held :=
  match c with
  | .ban _ _ _ _ => inferInstanceAs (Decidable (_ ≤ _))
  | .unban _ _ => inferInstanceAs (Decidable True)

def write : Command → Expiring.Write Str Nat Nat
  | .ban first last ip ttl => ⟨ip,some (till first ttl),last⟩
  | .unban now ip => ⟨ip,none,now⟩

end Command

/-- A command, with the time its file is stamped with, or a check by the worker. -/
inductive Event where
  | command (c : Command) (mtime : ℚ)
  | visit (ip : Str) (now : Nat) (readable : Bool)

/-- The files the path has had, the last one first, and the worker's cache. -/
structure World where
  files : List File
  cache : BanCache

namespace World

def initial : World := ⟨[],.initial⟩

def text (w : World) : Option Str := w.files.head?.map File.text

def found (w : World) (readable : Bool) : Found :=
  match w.files with
  | [] => .missing
  | file::_ => if readable then .readable file else .unreadable file

def step (path : Str) (w : World) : Event → World
  | .command c mtime =>
    match c.run w.text with
    | ⟨0,_,_,some text⟩ => { w with files := ⟨text,mtime⟩::w.files }
    | _ => w
  | .visit ip now readable => { w with cache := (isBanned w.cache ip path (w.found readable) now).2 }

/-- The script and the worker answer about an address at an instant as `banned` says. -/
structure Answers (path : Str) (w : World) (ip : Str) (now : Nat) (banned : Prop) : Prop where
  check : (Banlist.check (now / 1000) ip w.text).status = 0 ↔ banned
  list : (∃ line ∈ Lines.records newline (Banlist.list (now / 1000) w.text).out, column 1 line = ip) ↔ banned
  worker : (isBanned w.cache ip path (w.found true) now).1 = true ↔ banned

end World

def world (path : Str) (events : List Event) : World := events.foldl (World.step path) .initial

def commands (events : List Event) : List Command :=
  events.filterMap fun
    | .command c _ => some c
    | .visit _ _ _ => none

/-- The last command on the address is a ban that has not run out. -/
def Banned (cs : List Command) (ip : Str) (now : Nat) : Prop :=
  ∃ c ∈ cs.reverse.find? fun c => c.ip = ip, c.Bans now

def World.Told (w : World) : Prop := ∀ file ∈ w.files.head?, file.Told w.files

instance (cs : List Command) (ip : Str) (now : Nat) : Decidable (Banned cs ip now) :=
  inferInstanceAs (Decidable (∃ c ∈ cs.reverse.find? fun c => c.ip = ip, c.Bans now))

instance (w : World) : Decidable w.Told := inferInstanceAs (Decidable (∀ file ∈ w.files.head?, file.Told w.files))

/-! ## Commands are writes -/

theorem world_append (path : Str) (events : List Event) (e : Event) :
    world path (events ++ [e]) = (world path events).step path e := by
  simp [world]

theorem lapses (now later v : Nat) (after : now ≤ later) (standing : stands later v = true) : stands now v = true := by
  simp only [stands,Bool.or_eq_true,decide_eq_true_eq] at *
  omega

variable {entries : List Entry} {path : Str}

theorem run_holds {c : Command} {file : Option Str} (sound : c.Sound) (held : c.Held) (early : c.seconds < 2 ^ 53)
    (holds : Holds file entries) :
    (c.run file).status = 0 ∧ (c.run file).file ≠ none ∧
      Holds (c.run file).file (Expiring.write stands entries c.write) := by
  cases c with
  | ban first last ip ttl =>
    obtain ⟨status,written⟩ := ban_ran sound.1 held sound.2 last file
    exact ⟨status,by simp [Command.run,written],ban_holds sound.1 held sound.2 early holds⟩
  | unban now ip =>
    refine ⟨?_,?_,unban_holds sound early holds⟩
    · simp [Command.run,unban,Address.ne_nil sound]
    · simp [Command.run,unban,Address.ne_nil sound]

theorem step_remembers {w : World} (named : path ≠ []) (remembers : w.cache.Remembers path w.files) (e : Event) :
    (w.step path e).cache.Remembers path (w.step path e).files := by
  cases e with
  | command c mtime =>
    rw [World.step]
    split
    · exact remembers.cons _
    · exact remembers
  | visit ip now readable =>
    simp only [World.step,isBanned_cache _ _ named]
    apply loadBans_remembers remembers
    intro file current
    rw [World.found] at current
    split at current
    · contradiction
    · next latest earlier files =>
      rw [files]
      split at current
      · obtain rfl := Found.readable.inj current
        exact List.mem_cons_self
      · contradiction

theorem world_remembers (named : path ≠ []) (events : List Event) :
    (world path events).cache.Remembers path (world path events).files := by
  induction events using List.reverseRecOn with
  | nil => exact initial_remembers named _
  | append_singleton before e ih =>
    rw [world_append]
    exact step_remembers named ih e

theorem world_holds (path : Str) {events : List Event} (sound : ∀ c ∈ commands events, c.Sound)
    (held : ∀ c ∈ commands events, c.Held) (early : ∀ c ∈ commands events, c.seconds < 2 ^ 53) :
    Holds (world path events).text (Expiring.store stands ((commands events).map Command.write)) := by
  induction events using List.reverseRecOn with
  | nil => exact ⟨rfl,by simp [Expiring.store,commands]⟩
  | append_singleton before e ih =>
    have split : commands (before ++ [e]) = commands before ++ commands [e] := List.filterMap_append
    rw [split] at sound held early ⊢
    have earlier := ih (fun c member => sound c (List.mem_append_left _ member))
      (fun c member => held c (List.mem_append_left _ member)) fun c member => early c (List.mem_append_left _ member)
    rw [world_append]
    cases e with
    | visit ip now readable =>
      have none : commands [.visit ip now readable] = [] := rfl
      rw [none,List.append_nil]
      exact earlier
    | command c mtime =>
      have one : commands [.command c mtime] = [c] := rfl
      rw [one,List.map_append,List.map_singleton,Expiring.store_append]
      have within : c ∈ commands before ++ commands [.command c mtime] := by simp [one]
      obtain ⟨status,written,after⟩ := run_holds (sound c within) (held c within) (early c within) earlier
      obtain ⟨text,some⟩ := Option.ne_none_iff_exists'.mp written
      rw [some] at after
      rw [World.step]
      split
      · next out err text' ran =>
        rw [ran] at some
        obtain rfl := Option.some.inj some
        exact after
      · next other =>
        refine absurd ?_ (other (c.run (world path before).text).out (c.run (world path before).text).err text)
        rw [← status,← some]

/-! ## What was commanded last -/

theorem banned_iff {cs : List Command} {now : Nat} (sound : ∀ c ∈ cs, c.Sound) (past : ∀ c ∈ cs, c.seconds ≤ now / 1000)
    (ip : Str) :
    (∃ v, (ip,v) ∈ Expiring.store stands (cs.map Command.write) ∧ stands (now / 1000) v = true) ↔ Banned cs ip now := by
  have times : ∀ w ∈ cs.map Command.write, w.time ≤ now / 1000 := by
    intro w member
    obtain ⟨c,within,rfl⟩ := List.mem_map.mp member
    cases c <;> exact past _ within
  have last : Expiring.last (cs.map Command.write) ip = (cs.reverse.find? fun c => c.ip = ip).map Command.write := by
    rw [Expiring.last,← List.map_reverse,List.find?_map]
    congr 2
    funext c
    cases c <;> rfl
  rw [Expiring.stored_iff lapses times,last,Banned]
  have standing {c : Command} (within : c ∈ cs) :
      (∃ v, c.write.value = some v ∧ stands (now / 1000) v = true) ↔ c.Bans now := by
    have fits := sound c within
    cases c with
    | unban => simp [Command.write,Command.Bans]
    | ban first last ip ttl =>
      simp only [Command.write,Option.some.injEq,exists_eq_left',stands,till,Command.Bans,Bool.or_eq_true,
        decide_eq_true_eq]
      split_ifs <;> omega
  constructor
  · rintro ⟨w,v,found,value,stand⟩
    obtain ⟨c,own,rfl⟩ := Option.map_eq_some_iff.mp found
    have within := List.mem_reverse.mp (List.mem_of_find?_eq_some own)
    exact ⟨c,own,(standing within).mp ⟨v,value,stand⟩⟩
  · rintro ⟨c,own,bans⟩
    have within := List.mem_reverse.mp (List.mem_of_find?_eq_some own)
    obtain ⟨v,value,stand⟩ := (standing within).mpr bans
    exact ⟨c.write,v,by rw [Option.mem_def.mp own]; rfl,value,stand⟩

theorem Holds.nil {entries : List Entry} (holds : Holds none entries) : entries = [] := by
  have text := holds.text
  cases entries with
  | nil => rfl
  | cons entry rest => simp [Lines.written] at text

theorem Holds.answers {w : World} (named : path ≠ []) (remembers : w.cache.Remembers path w.files) (told : w.Told)
    (holds : Holds w.text entries) (single : (entries.map Prod.fst).Nodup) {ip : Str} (address : Address ip) {now : Nat}
    (date : now < 2 ^ 53) :
    w.Answers path ip now (∃ v, (ip,v) ∈ entries ∧ stands (now / 1000) v = true) := by
  have early : now / 1000 < 2 ^ 53 := lt_of_le_of_lt (Nat.div_le_self _ _) date
  refine ⟨check_status address early holds,list_lines early holds,?_⟩
  rw [World.found]
  split
  · next none =>
    have missing : w.text = Option.none := by simp [World.text,none]
    rw [missing] at holds
    simp [isBanned,named,loadBans,lookup,holds.nil]
  · next file earlier files =>
    have current : w.text = some file.text := by simp [World.text,files]
    rw [current] at holds
    exact isBanned_iff named remembers (told file (by simp [files])) holds single ip date

theorem Banned.other {cs : List Command} {c : Command} {ip : Str} (other : c.ip ≠ ip) (now : Nat) :
    Banned (cs ++ [c]) ip now ↔ Banned cs ip now := by
  simp [Banned,other]

/-- The script and the worker answer by the last command on each address, and the file
has one line for it, whatever was commanded on the others. -/
theorem histories_agree (path : Str) (named : path ≠ []) (events : List Event) (ip : Str) (address : Address ip)
    (now : Nat) (date : now ≤ 8640000000000000) (sound : ∀ c ∈ commands events, c.Sound)
    (past : ∀ c ∈ commands events, c.seconds ≤ now / 1000) (held : ∀ c ∈ commands events, c.Held)
    (told : (world path events).Told) :
    (world path events).Answers path ip now (Banned (commands events) ip now) ∧
      ((Lines.records newline ((world path events).text.getD [])).map (column 1)).Nodup ∧
      ∀ c mtime, c.ip ≠ ip → c.Sound → c.seconds ≤ now / 1000 → c.Held →
        (world path (events ++ [.command c mtime])).Told →
        (world path (events ++ [.command c mtime])).Answers path ip now (Banned (commands events) ip now) := by
  have early (events : List Event) (past : ∀ c ∈ commands events, c.seconds ≤ now / 1000) :
      ∀ c ∈ commands events, c.seconds < 2 ^ 53 := by
    intro c member
    have before := past c member
    omega
  have answers (events : List Event) (sound : ∀ c ∈ commands events, c.Sound)
      (past : ∀ c ∈ commands events, c.seconds ≤ now / 1000) (held : ∀ c ∈ commands events, c.Held)
      (told : (world path events).Told) :
      (world path events).Answers path ip now (Banned (commands events) ip now) := by
    have holds := world_holds path sound held (early events past)
    have single := Expiring.store_nodup stands ((commands events).map Command.write)
    have small : now < 2 ^ 53 := by omega
    have stored := holds.answers named (world_remembers named events) told single address small
    rwa [banned_iff sound past] at stored
  refine ⟨answers events sound past held told,?_,?_⟩
  · have holds := world_holds path sound held (early events past)
    have columns : ((Expiring.store stands ((commands events).map Command.write)).map (column 1 ∘ line)) =
        (Expiring.store stands ((commands events).map Command.write)).map Prod.fst :=
      List.map_congr_left fun entry member => column_one (holds.fits entry member).address
    rw [holds.text,records_lines holds.fits,List.map_map,columns]
    exact Expiring.store_nodup _ _
  · intro c mtime other sound' past' held' told'
    have more : commands (events ++ [.command c mtime]) = commands events ++ [c] := List.filterMap_append
    have later := answers (events ++ [.command c mtime])
    rw [more,Banned.other other] at later
    apply later _ _ _ told'
    · exact List.forall_mem_append.mpr ⟨sound,by simpa using sound'⟩
    · exact List.forall_mem_append.mpr ⟨past,by simpa using past'⟩
    · exact List.forall_mem_append.mpr ⟨held,by simpa using held'⟩

theorem histories_agree_extended : let ip := str "fd97::7"
    let events := [.command (.ban 1000 1000 ip 600) 1,.visit ip 1000500 true,.command (.ban 1200 1201 ip 900) 2]
    (isBanned (world (str "banlist") events).cache ip (str "banlist") ((world (str "banlist") events).found true) 2099999).1 =
      true ∧ (check 2099 ip (world (str "banlist") events).text).status = 0 := by
  have agree := histories_agree (str "banlist") (by decide)
    [.command (.ban 1000 1000 (str "fd97::7") 600) 1,.visit (str "fd97::7") 1000500 true,
      .command (.ban 1200 1201 (str "fd97::7") 900) 2] (str "fd97::7") (by decide +kernel) 2099999 (by decide)
    (by decide +kernel) (by decide +kernel) (by decide +kernel) (by decide +kernel)
  exact ⟨agree.1.worker.mpr (by decide +kernel),agree.1.check.mpr (by decide +kernel)⟩

/-- Seconds below -2^63 pass for an integer, but the shell's test cannot read them. -/
theorem permanent_ban_lost : let ip := str "10.0.0.7"
    let c := Command.ban 1000 1000 ip (-9223372036854775809)
    let w := world (str "banlist") [.command c 1]
    c.Sound ∧ Banned [c] ip 2000000 ∧ (check 2000 ip w.text).status = 1 ∧
      (isBanned w.cache ip (str "banlist") (w.found true) 2000000).1 = false := by
  decide +kernel


end FipsShield.Banlist
