import FipsShield.Guard.Classifier
import FipsShield.Library.Transducer
import Mathlib.Algebra.Group.Nat.Defs
import Mathlib.Algebra.Group.Int.Defs

/-! The commands of `fips-guard` on the pinned maps (`guard/src/main.rs`), each run with
no other process at work, and the agreement of `check` and `list` with the classifier. -/
namespace FipsShield.Guard

inductive IpAddr where
  | v4 (b : Vector UInt8 4)
  | v6 (a : Addr6)
  deriving DecidableEq

inductive Failure where
  | invalidAddress
  | notInserted (reclaimed : Nat)
  | notTaken
  deriving DecidableEq

/-- IPv4 is accepted and reported as a no-op: the mesh is IPv6-only. -/
def parseV6 : Option IpAddr → Except Failure (Option Addr6)
  | some (.v6 a) => .ok (some a)
  | some (.v4 _) => .ok none
  | none => .error .invalidAddress

def saturatingAdd (a b : UInt64) : UInt64 := if a.toNat + b.toNat < 2 ^ 64 then a + b else .ofNat (2 ^ 64 - 1)

def saturatingMul (a b : UInt64) : UInt64 := if a.toNat * b.toNat < 2 ^ 64 then a * b else .ofNat (2 ^ 64 - 1)

/-- The value a ban of so many seconds stores; none at all is for ever. -/
def banVal (seconds : Int64) (mono epoch : UInt64) : BanVal :=
  if seconds ≤ 0 then ⟨0,0⟩
  else ⟨saturatingAdd mono (saturatingMul seconds.toUInt64 1000000000),saturatingAdd epoch seconds.toUInt64⟩

/-- What `set_config` stores; a rate with no burst gets one packet of it. -/
def stored (rate burst : UInt64) : Config := ⟨rate,if rate > 0 ∧ burst = 0 then 1 else burst⟩

theorem saturated_toNat {n : Nat} {wrapped : UInt64} (wraps : wrapped.toNat = n % 2 ^ 64) :
    (if n < 2 ^ 64 then wrapped else .ofNat (2 ^ 64 - 1)).toNat = min n (2 ^ 64 - 1) := by
  split_ifs with fits
  · rw [wraps,Nat.mod_eq_of_lt fits]
    omega
  · have top : (UInt64.ofNat (2 ^ 64 - 1)).toNat = 2 ^ 64 - 1 := by decide
    rw [top]
    omega

theorem saturatingAdd_toNat (a b : UInt64) : (saturatingAdd a b).toNat = min (a.toNat + b.toNat) (2 ^ 64 - 1) :=
  saturated_toNat (UInt64.toNat_add a b)

theorem saturatingMul_toNat (a b : UInt64) : (saturatingMul a b).toNat = min (a.toNat * b.toNat) (2 ^ 64 - 1) :=
  saturated_toNat (UInt64.toNat_mul a b)

/-- A ban stands for ever, or until its deadline, saturated ones included. -/
theorem banVal_until (seconds : Int64) (mono epoch now : UInt64) : (banVal seconds mono epoch).Standing now ↔
    seconds ≤ 0 ∨ (now.toNat : Int) < min (mono.toNat + seconds.toInt * 1000000000) (2 ^ 64 - 1) := by
  have sign : seconds ≤ 0 ↔ seconds.toInt ≤ 0 := Int64.le_iff_toInt_le
  rw [banVal]
  by_cases permanent : seconds ≤ 0
  · rw [if_pos permanent]
    exact iff_of_true (Or.inl rfl) (Or.inl permanent)
  · rw [if_neg permanent]
    have positive : 0 < seconds.toInt := Int.not_le.mp (sign.not.mp permanent)
    have natural : 0 ≤ seconds.toInt := Int.le_of_lt positive
    have whole : (seconds.toUInt64.toNat : Int) = seconds.toInt := by
      rw [Int64.toNat_toUInt64_of_le (Int64.le_iff_toInt_le.mpr natural)]
      exact Int.toNat_of_nonneg natural
    have billion : (1000000000 : UInt64).toNat = 1000000000 := by decide
    have stored : (saturatingAdd mono (saturatingMul seconds.toUInt64 1000000000)).toNat =
        min (mono.toNat + seconds.toUInt64.toNat * 1000000000) (2 ^ 64 - 1) := by
      rw [saturatingAdd_toNat,saturatingMul_toNat,billion]
      omega
    have dated : saturatingAdd mono (saturatingMul seconds.toUInt64 1000000000) ≠ 0 := by
      intro zero
      rw [zero] at stored
      rw [UInt64.toNat_zero] at stored
      omega
    simp only [BanVal.Standing,dated,false_or,permanent,UInt64.lt_iff_toNat_lt,stored]
    omega

/-- An update of the ban map, which fails where a new key finds it full. -/
def insertBan (capacity : Nat) (bans : Bans) (key : Addr6) (val : BanVal) : Option Bans :=
  if key ∈ bans ∨ bans.entries.length < capacity then some (bans.insert key val) else none

theorem insertBan_eq {capacity : Nat} {bans after : Bans} {key : Addr6} {val : BanVal}
    (inserted : insertBan capacity bans key val = some after) : after = bans.insert key val := by
  unfold insertBan at inserted
  split_ifs at inserted
  exact (Option.some.inj inserted).symm

def expired (now : UInt64) (bans : Bans) : List Addr6 :=
  (bans.entries.filter fun entry => entry.2.expiresMonoNs != 0 && entry.2.expiresMonoNs ≤ now).map Sigma.fst

def remove (bans : Bans) (keys : List Addr6) : Bans := keys.foldl (fun bans key => bans.erase key) bans

/-- `prune_expired`: how many entries went, and the map without them. -/
def pruneExpired (now : UInt64) (bans : Bans) : Nat × Bans :=
  ((expired now bans).length,remove bans (expired now bans))

abbrev Done (α : Type) := Except Failure α × Bans

/-- `cmd_ban`, with the reading of the clock that the sweep before a second attempt takes. -/
def cmdBan (capacity : Nat) (mono epoch sweep : UInt64) (ip : Option IpAddr) (seconds : Int64)
    (bans : Bans) : Done (Option BanVal) :=
  match parseV6 ip with
  | .error e => (.error e,bans)
  | .ok none => (.ok none,bans)
  | .ok (some key) =>
    let val := banVal seconds mono epoch
    match insertBan capacity bans key val with
    | some bans => (.ok (some val),bans)
    | none =>
      let pruned := pruneExpired sweep bans
      match insertBan capacity pruned.2 key val with
      | some bans => (.ok (some val),bans)
      | none => (.error (.notInserted pruned.1),pruned.2)

/-- `cmd_unban`; the answer says whether there was a ban. -/
def cmdUnban (ip : Option IpAddr) (bans : Bans) : Done Bool :=
  match parseV6 ip with
  | .error e => (.error e,bans)
  | .ok none => (.ok false,bans)
  | .ok (some key) =>
    let wasBanned := (bans.lookup key).isSome
    let bans := bans.erase key
    if (bans.lookup key).isSome then (.error .notTaken,bans) else (.ok wasBanned,bans)

/-- `cmd_check`: whether the address is banned. -/
def cmdCheck (now : UInt64) (ip : Option IpAddr) (bans : Bans) : Done Bool :=
  match parseV6 ip with
  | .error e => (.error e,bans)
  | .ok none => (.ok false,bans)
  | .ok (some key) =>
    match bans.lookup key with
    | some v =>
      if v.expiresMonoNs == 0 || v.expiresMonoNs > now then (.ok true,bans)
      else (.ok false,bans.erase key)
    | none => (.ok false,bans)

def active (now : UInt64) (bans : Bans) : List (Addr6 × UInt64) :=
  (bans.entries.filter fun entry => entry.2.expiresMonoNs == 0 || entry.2.expiresMonoNs > now).map
    fun entry => (entry.1,entry.2.expiresEpochS)

/-- `cmd_list`, with the readings of the clock of its sweep and of its own. -/
def cmdList (sweep now : UInt64) (bans : Bans) : List (Addr6 × UInt64) × Bans :=
  let pruned := (pruneExpired sweep bans).2
  (active now pruned,pruned)

structure Report where
  counters : Slot → UInt64
  config : Config
  active : Nat
  capacity : Nat
  stale : Nat

def cmdStats (capacity : Nat) (counters : Slot → UInt64) (config : Config) (now : UInt64) (bans : Bans) :
    Report × Bans :=
  let total := bans.entries.length
  let pruned := pruneExpired now bans
  (⟨counters,config,total - pruned.1,capacity,pruned.1⟩,pruned.2)

/-! ## The sweep -/

theorem lookup_remove (bans : Bans) (keys : List Addr6) (src : Addr6) :
    (remove bans keys).lookup src = if src ∈ keys then none else bans.lookup src := by
  induction keys generalizing bans with
  | nil => rfl
  | cons key rest ih =>
    rw [remove,List.foldl_cons,← remove,ih]
    by_cases same : src = key
    · subst same
      simp
    · simp [same,AList.lookup_erase_ne same]

theorem mem_expired {now : UInt64} {bans : Bans} {src : Addr6} :
    src ∈ expired now bans ↔ ∃ v, bans.lookup src = some v ∧ ¬ v.Standing now := by
  simp only [expired,List.mem_map,List.mem_filter,BanVal.not_standing]
  constructor
  · rintro ⟨⟨key,v⟩,⟨member,lapsed⟩,rfl⟩
    exact ⟨v,AList.mem_lookup_iff.mpr member,by simpa using lapsed⟩
  · rintro ⟨v,found,lapsed⟩
    exact ⟨⟨src,v⟩,⟨AList.mem_lookup_iff.mp found,by simpa using lapsed⟩,rfl⟩

/-- A sweep takes no ban that is in force at its reading of the clock or later. -/
theorem pruneExpired_banned {now later : UInt64} (passes : now ≤ later) (bans : Bans) (src : Addr6) :
    Banned (pruneExpired now bans).2 src later ↔ Banned bans src later := by
  simp only [Banned,pruneExpired,lookup_remove]
  split_ifs with gone
  · obtain ⟨v,found,lapsed⟩ := mem_expired.mp gone
    apply iff_of_false
    · rintro ⟨w,same,_⟩
      cases same
    · rintro ⟨w,same,standing⟩
      rw [found] at same
      cases same
      exact lapsed (standing.earlier passes)
  · rfl

theorem cmdCheck_banned {now later : UInt64} (passes : now ≤ later) (ip : Option IpAddr) (bans : Bans)
    (src : Addr6) : Banned (cmdCheck now ip bans).2 src later ↔ Banned bans src later := by
  unfold cmdCheck
  split
  · rfl
  · rfl
  · next key _ =>
    split
    · next v found =>
      split_ifs with stands
      · rfl
      · have lapsed : ¬ v.Standing now := by simpa [BanVal.Standing] using stands
        simp only [Banned]
        by_cases same : src = key
        · rw [same,AList.lookup_erase]
          apply iff_of_false
          · rintro ⟨w,erased,_⟩
            cases erased
          · rintro ⟨w,other,standing⟩
            rw [found] at other
            cases other
            exact lapsed (standing.earlier passes)
        · rw [AList.lookup_erase_ne same]
    · rfl

/-! ## Sequences of reading commands -/

inductive Query where
  | check (ip : Option IpAddr)
  | list
  | stats

/-- A command, and its first and last readings of the monotonic clock. -/
structure Asked where
  first : UInt64
  last : UInt64
  query : Query

inductive Answer where
  | checked (banned : Except Failure Bool)
  | listed (lines : List (Addr6 × UInt64))
  | counted (report : Report)

/-- A command run on the map, with the capacity and the counters it reports. -/
def ask (capacity : Nat) (counters : Slot → UInt64) (config : Config) (bans : Bans) (x : Asked) :
    Bans × List Answer :=
  match x.query with
  | .check ip =>
    let done := cmdCheck x.first ip bans
    (done.2,[.checked done.1])
  | .list =>
    let done := cmdList x.first x.last bans
    (done.2,[.listed done.1])
  | .stats =>
    let done := cmdStats capacity counters config x.first bans
    (done.2,[.counted done.1])

/-- A packet from an address; the classifier counts one from an IPv4 address elsewhere. -/
def packetFrom : IpAddr → Packet
  | .v4 _ => ⟨false,none⟩
  | .v6 a => ⟨true,some a⟩

def Drops (bans : Bans) (skb : Packet) (now : UInt64) : Prop :=
  ∀ cfg buckets, (shieldGuard bans cfg buckets skb now).2.1 = .droppedBan

theorem drops_iff {bans : Bans} {src : Addr6} {now : UInt64} : Drops bans ⟨true,some src⟩ now ↔ Banned bans src now := by
  constructor
  · intro drops
    exact (shieldGuard_bans bans ⟨0,0⟩ ∅ src now).mp (drops ⟨0,0⟩ ∅)
  · intro banned cfg buckets
    exact (shieldGuard_bans bans cfg buckets src now).mpr banned

/-- The command answers as the classifier decides at the same reading of the clock. -/
def Agrees (capacity : Nat) (counters : Slot → UInt64) (config : Config) (bans : Bans) (x : Asked) : Prop :=
  ∀ answer ∈ (ask capacity counters config bans x).2, match x.query,answer with
    | .check (some ip),.checked banned => banned = .ok true ↔ Drops bans (packetFrom ip) x.first
    | .list,.listed lines => ∀ src, src ∈ lines.map Prod.fst ↔ Drops bans ⟨true,some src⟩ x.last
    | _,_ => True

section Agreement
variable {capacity : Nat} {counters : Slot → UInt64} {config : Config} {bans : Bans}

theorem cmdCheck_drops (now : UInt64) (ip : IpAddr) :
    (cmdCheck now (some ip) bans).1 = .ok true ↔ Drops bans (packetFrom ip) now := by
  cases ip with
  | v4 b =>
    refine iff_of_false (by simp [cmdCheck,parseV6]) ?_
    intro drops
    have counted := drops ⟨0,0⟩ ∅
    simp [packetFrom,shieldGuard] at counted
  | v6 key =>
    rw [packetFrom,drops_iff]
    simp only [cmdCheck,parseV6,Banned]
    cases bans.lookup key with
    | none => simp
    | some v =>
      by_cases standing : v.Standing now
      · have stands : (v.expiresMonoNs == 0 || v.expiresMonoNs > now) = true := by
          simpa [BanVal.Standing] using standing
        simp only [if_pos stands]
        exact iff_of_true trivial ⟨v,rfl,standing⟩
      · have lapsed : ¬ (v.expiresMonoNs == 0 || v.expiresMonoNs > now) = true := by
          simpa [BanVal.Standing] using standing
        simp only [if_neg lapsed]
        refine iff_of_false (by simp) ?_
        rintro ⟨w,same,still⟩
        exact standing (Option.some.inj same ▸ still)

theorem mem_active {now : UInt64} {src : Addr6} : src ∈ (active now bans).map Prod.fst ↔ Banned bans src now := by
  simp only [active,List.map_map,List.mem_map,List.mem_filter,Function.comp_apply,Banned]
  constructor
  · rintro ⟨⟨key,v⟩,⟨member,stands⟩,rfl⟩
    exact ⟨v,AList.mem_lookup_iff.mpr member,by simpa [BanVal.Standing] using stands⟩
  · rintro ⟨v,found,standing⟩
    exact ⟨⟨src,v⟩,⟨AList.mem_lookup_iff.mp found,by simpa [BanVal.Standing] using standing⟩,rfl⟩

theorem ask_agrees {x : Asked} (forward : x.first ≤ x.last) : Agrees capacity counters config bans x := by
  intro answer member
  obtain ⟨first,last,query⟩ := x
  cases query with
  | check ip =>
    obtain rfl := List.mem_singleton.mp member
    cases ip with
    | none => trivial
    | some ip => exact cmdCheck_drops first ip
  | list =>
    obtain rfl := List.mem_singleton.mp member
    intro src
    simp only [cmdList]
    rw [mem_active,drops_iff]
    exact pruneExpired_banned forward bans src
  | stats =>
    obtain rfl := List.mem_singleton.mp member
    trivial

theorem ask_banned (x : Asked) {later : UInt64} (passes : x.first ≤ later) (src : Addr6) :
    Banned (ask capacity counters config bans x).1 src later ↔ Banned bans src later := by
  obtain ⟨first,last,query⟩ := x
  cases query with
  | check ip => exact cmdCheck_banned passes ip bans src
  | list => exact pruneExpired_banned passes bans src
  | stats => exact pruneExpired_banned passes bans src

end Agreement

def InTurn : List Asked → Prop
  | [] => True
  | x::rest => x.first ≤ x.last ∧ (∀ y ∈ rest, x.last ≤ y.first) ∧ InTurn rest

/-- However many reading commands run one after another, they change for no source whether
its packets are dropped from then on, and each answers as the classifier decides. -/
theorem queries_agree (capacity : Nat) (counters : Slot → UInt64) (config : Config) (bans : Bans)
    (asked : List Asked) (turn : InTurn asked) :
    (∀ later, (∀ x ∈ asked, x.last ≤ later) → ∀ src,
        Drops (Transducer.run (ask capacity counters config) bans asked).1 ⟨true,some src⟩ later ↔
          Drops bans ⟨true,some src⟩ later) ∧
      Transducer.Throughout (ask capacity counters config) (Agrees capacity counters config) bans asked := by
  induction asked generalizing bans with
  | nil => exact ⟨fun _ _ _ => Iff.rfl,trivial⟩
  | cons x rest ih =>
    obtain ⟨forward,_,turns⟩ := turn
    obtain ⟨kept,agree⟩ := ih (ask capacity counters config bans x).1 turns
    refine ⟨?_,ask_agrees forward,agree⟩
    intro later passes src
    have now : x.first ≤ later := UInt64.le_trans forward (passes x (by simp))
    rw [Transducer.run_cons,kept later (fun y member => passes y (by simp [member])),drops_iff,drops_iff]
    exact ask_banned x now src

def node : Addr6 := ⟨.replicate 16 7⟩

theorem queries_lapsed :
    (∀ later, (∀ x ∈ [(⟨5,6,.list⟩ : Asked),⟨7,7,.check (some (.v6 node))⟩], x.last ≤ later) → ∀ src,
        Drops (Transducer.run (ask maxTracked (fun _ => 0) ⟨0,0⟩) (AList.singleton node ⟨6,1⟩)
          [⟨5,6,.list⟩,⟨7,7,.check (some (.v6 node))⟩]).1 ⟨true,some src⟩ later ↔
            Drops (AList.singleton node ⟨6,1⟩) ⟨true,some src⟩ later) ∧
      Transducer.Throughout (ask maxTracked (fun _ => 0) ⟨0,0⟩) (Agrees maxTracked (fun _ => 0) ⟨0,0⟩)
        (AList.singleton node ⟨6,1⟩) [⟨5,6,.list⟩,⟨7,7,.check (some (.v6 node))⟩] :=
  queries_agree maxTracked (fun _ => 0) ⟨0,0⟩ (AList.singleton node ⟨6,1⟩)
    [⟨5,6,.list⟩,⟨7,7,.check (some (.v6 node))⟩]
    ⟨by decide,by simp,by decide,by simp,trivial⟩

end FipsShield.Guard
