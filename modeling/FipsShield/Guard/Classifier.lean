import Mathlib.Data.List.AList

/-! The pinned maps of the eBPF guard and the classifier that reads them
(`guard/bpf/shield_guard.bpf.c`): bans first, then the throttle of each source. -/
namespace FipsShield.Guard

structure Addr6 where
  b : Vector UInt8 16
  deriving DecidableEq

/-- A ban: its monotonic deadline, zero if it is permanent, and the wall-clock one. -/
structure BanVal where
  expiresMonoNs : UInt64
  expiresEpochS : UInt64
  deriving DecidableEq

structure Bucket where
  tokensMilli : UInt64
  lastNs : UInt64
  deriving DecidableEq

/-- The throttle; a rate of zero disables it. -/
structure Config where
  ratePps : UInt64
  burstPkts : UInt64
  deriving DecidableEq

/-- The map `shield_bans`. -/
abbrev Bans := AList fun _ : Addr6 => BanVal

/-- The map `shield_throttle`. -/
abbrev Throttle := AList fun _ : Addr6 => Bucket

def maxTracked : Nat := 65536

/-- The slots of `shield_stats`. -/
inductive Slot where
  | passed | droppedBan | droppedThrottle | notIpv6 | parseFailed
  deriving DecidableEq

inductive Action where
  | ok | shot
  deriving DecidableEq

/-- What the classifier reads of a packet: whether it is IPv6, and the source address
if it could be loaded. -/
structure Packet where
  ipv6 : Bool
  saddr : Option Addr6
  deriving DecidableEq

def cap (cfg : Config) : UInt64 := cfg.burstPkts * 1000

def fresh (cfg : Config) (now : UInt64) : Bucket where
  tokensMilli := if 1000 < cap cfg then cap cfg - 1000 else 0
  lastNs := now

def refill (cfg : Config) (now : UInt64) (b : Bucket) : Bucket :=
  let elapsedMs := (now - b.lastNs) / 1000000
  if elapsedMs = 0 then b
  else
    let tokens := b.tokensMilli + elapsedMs * cfg.ratePps
    ⟨if cap cfg < tokens then cap cfg else tokens,now⟩

def throttle (cfg : Config) (buckets : Throttle) (src : Addr6) (now : UInt64) : Bool × Throttle :=
  if cfg.ratePps = 0 then (true,buckets)
  else match buckets.lookup src with
  | none => (true,buckets.insert src (fresh cfg now))
  | some b =>
    let b := refill cfg now b
    if b.tokensMilli < 1000 then (false,buckets.insert src b)
    else (true,buckets.insert src {b with tokensMilli := b.tokensMilli - 1000})

/-- What becomes of a packet, the slot it is counted in, and the buckets after it. -/
def shieldGuard (bans : Bans) (cfg : Config) (buckets : Throttle) (skb : Packet) (now : UInt64) :
    Action × Slot × Throttle :=
  if !skb.ipv6 then (.ok,.notIpv6,buckets)
  else match skb.saddr with
  | none => (.ok,.parseFailed,buckets)
  | some src =>
    let dropped := match bans.lookup src with
      | none => false
      | some ban => ban.expiresMonoNs == 0 || ban.expiresMonoNs > now
    if dropped then (.shot,.droppedBan,buckets)
    else
      let taken := throttle cfg buckets src now
      if taken.1 then (.ok,.passed,taken.2) else (.shot,.droppedThrottle,taken.2)

/-! ## What the ban map stands for -/

def BanVal.Standing (v : BanVal) (now : UInt64) : Prop := v.expiresMonoNs = 0 ∨ now < v.expiresMonoNs

instance (v : BanVal) (now : UInt64) : Decidable (v.Standing now) := inferInstanceAs (Decidable (_ ∨ _))

def Banned (bans : Bans) (src : Addr6) (now : UInt64) : Prop := ∃ v, bans.lookup src = some v ∧ v.Standing now

theorem BanVal.not_standing {v : BanVal} {now : UInt64} :
    ¬ v.Standing now ↔ v.expiresMonoNs ≠ 0 ∧ v.expiresMonoNs ≤ now := by
  rw [Standing,not_or,UInt64.not_lt]

theorem BanVal.Standing.earlier {v : BanVal} {now later : UInt64} (standing : v.Standing later)
    (passes : now ≤ later) : v.Standing now :=
  standing.imp_right fun within => UInt64.lt_of_le_of_lt passes within

/-- The classifier drops a packet for its ban exactly when its source has one in force. -/
theorem shieldGuard_bans (bans : Bans) (cfg : Config) (buckets : Throttle) (src : Addr6) (now : UInt64) :
    (shieldGuard bans cfg buckets ⟨true,some src⟩ now).2.1 = .droppedBan ↔ Banned bans src now := by
  simp only [shieldGuard,Banned]
  cases bans.lookup src with
  | none =>
    simp only [Bool.not_true,Bool.false_eq_true,if_false]
    split_ifs <;> simp
  | some v =>
    simp only [Bool.not_true,Bool.false_eq_true,if_false]
    by_cases standing : v.Standing now
    · have dropped : (v.expiresMonoNs == 0 || v.expiresMonoNs > now) = true := by
        simpa [BanVal.Standing] using standing
      rw [if_pos dropped]
      exact iff_of_true rfl ⟨v,rfl,standing⟩
    · have kept : ¬ (v.expiresMonoNs == 0 || v.expiresMonoNs > now) = true := by
        simpa [BanVal.Standing] using standing
      rw [if_neg kept]
      refine iff_of_false ?_ (fun ⟨w,same,still⟩ => standing (Option.some.inj same ▸ still))
      split_ifs <;> simp

end FipsShield.Guard
