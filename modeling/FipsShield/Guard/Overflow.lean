import FipsShield.Guard.Credit
import FipsShield.Library.Meter

/-! The throttle's arithmetic in 64 bits beside the same over all natural numbers: when the two
agree, and that a more generous throttle then passes no fewer packets. -/
namespace FipsShield.Guard
open Transducer

/-- The throttle over the natural numbers, in thousandths of a packet and in milliseconds. -/
def meter (cfg : Config) : Meter where
  unit := 1000000
  cost := 1000
  rate := cfg.ratePps.toNat
  cap := cfg.burstPkts.toNat * 1000

def Bucket.level (b : Bucket) : Meter.Level := ⟨b.tokensMilli.toNat,b.lastNs.toNat⟩

def gain (cfg : Config) (b : Bucket) (now : UInt64) : Nat := (now.toNat - b.lastNs.toNat) / 1000000 * cfg.ratePps.toNat

/-- The cap, the refill and the new count of tokens are those of the natural numbers. -/
def Exact (cfg : Config) (account : Option Bucket) (now : UInt64) : Prop :=
  cfg.ratePps ≠ 0 → (cap cfg).toNat = (meter cfg).cap ∧ match account with
  | none => (fresh cfg now).tokensMilli.toNat = (meter cfg).cap - (meter cfg).cost
  | some b => (elapsedMs b now * cfg.ratePps).toNat = gain cfg b now ∧
      (refill cfg now b).level = (meter cfg).refill now.toNat b.level

/-- Neither product wraps, and the sum at most so far that the cap cuts it all the same. -/
def Fits (cfg : Config) (account : Option Bucket) (now : UInt64) : Prop :=
  cfg.ratePps ≠ 0 → (meter cfg).cap < 2 ^ 64 ∧ ∀ b ∈ account, gain cfg b now < 2 ^ 64 ∧
    (b.tokensMilli.toNat + gain cfg b now < 2 ^ 64 ∨ (meter cfg).cap + 2 ^ 64 ≤ b.tokensMilli.toNat + gain cfg b now)

instance (cfg : Config) (account : Option Bucket) (now : UInt64) : Decidable (Fits cfg account now) :=
  inferInstanceAs (Decidable (_ → _))

/-! ## One packet -/

section Packet
variable {cfg : Config} {b : Bucket} {now : UInt64}

theorem cap_exact (cfg : Config) : (cap cfg).toNat = (meter cfg).cap ↔ (meter cfg).cap < 2 ^ 64 := by
  rw [cap,UInt64.toNat_mul]
  exact Nat.mod_eq_iff_lt (by decide)

theorem gain_exact (past : b.lastNs ≤ now) :
    (elapsedMs b now * cfg.ratePps).toNat = gain cfg b now ↔ gain cfg b now < 2 ^ 64 := by
  rw [UInt64.toNat_mul,elapsedMs_toNat past]
  exact Nat.mod_eq_iff_lt (by decide)

theorem fresh_exact (whole : (cap cfg).toNat = (meter cfg).cap) :
    (fresh cfg now).tokensMilli.toNat = (meter cfg).cap - (meter cfg).cost := by
  have unit : (1000 : UInt64).toNat = 1000 := rfl
  have cost : (meter cfg).cost = 1000 := rfl
  rw [← whole,cost]
  simp only [fresh]
  split_ifs with room
  · rw [UInt64.toNat_sub_of_le _ _ (UInt64.le_of_lt room),unit]
  · have low := Nat.not_lt.mp (UInt64.lt_iff_toNat_lt.not.mp room)
    rw [unit] at low
    have zero : (0 : UInt64).toNat = 0 := rfl
    omega

/-- The sum, cut at the cap, is right if it does not wrap or stays above the cap. -/
theorem refill_exact (past : b.lastNs ≤ now) (whole : (cap cfg).toNat = (meter cfg).cap)
    (flows : (elapsedMs b now * cfg.ratePps).toNat = gain cfg b now) :
    (refill cfg now b).level = (meter cfg).refill now.toNat b.level ↔
      b.tokensMilli.toNat + gain cfg b now < 2 ^ 64 ∨ (meter cfg).cap + 2 ^ 64 ≤ b.tokensMilli.toNat + gain cfg b now := by
  have small : gain cfg b now < 2 ^ 64 := flows ▸ UInt64.toNat_lt _
  have tokens := UInt64.toNat_lt b.tokensMilli
  have same := elapsedMs_toNat past
  by_cases early : elapsedMs b now = 0
  · have zero : (now.toNat - b.lastNs.toNat) / 1000000 = 0 := by rw [← same,early]; rfl
    have nothing : gain cfg b now = 0 := by rw [gain,zero,Nat.zero_mul]
    rw [refill_early early,nothing]
    exact iff_of_true (if_pos zero).symm (Or.inl tokens)
  · have due : (now.toNat - b.lastNs.toNat) / 1000000 ≠ 0 := by
      rw [← same]
      exact fun zero => early (UInt64.toNat_inj.mp zero)
    have natural : (meter cfg).refill now.toNat b.level =
        ⟨min (meter cfg).cap (b.tokensMilli.toNat + gain cfg b now),now.toNat⟩ := if_neg due
    have sum : (b.tokensMilli + elapsedMs b now * cfg.ratePps).toNat = (b.tokensMilli.toNat + gain cfg b now) % 2 ^ 64 := by
      rw [UInt64.toNat_add,flows]
    have above : cap cfg < b.tokensMilli + elapsedMs b now * cfg.ratePps ↔
        (meter cfg).cap < (b.tokensMilli.toNat + gain cfg b now) % 2 ^ 64 := by
      rw [UInt64.lt_iff_toNat_lt,whole,sum]
    have capped : (meter cfg).cap < 2 ^ 64 := whole ▸ UInt64.toNat_lt _
    rw [refill_due early,natural]
    simp only [Bucket.level,Meter.Level.mk.injEq,and_true,apply_ite UInt64.toNat,whole,sum,above]
    split_ifs
    · omega
    · omega

theorem exact_iff {account : Option Bucket} (past : ∀ b ∈ account, b.lastNs ≤ now) :
    Exact cfg account now ↔ Fits cfg account now := by
  refine imp_congr_right fun _ => ?_
  cases account with
  | none =>
    rw [cap_exact]
    refine and_congr_right fun fits => iff_of_true ?_ (by simp)
    exact fresh_exact ((cap_exact cfg).mpr fits)
  | some b =>
    rw [cap_exact]
    refine and_congr_right fun fits => ?_
    have whole := (cap_exact cfg).mpr fits
    have older := past b rfl
    simp only [gain_exact older,Option.mem_def,Option.some.injEq,forall_eq']
    refine and_congr_right fun small => ?_
    exact refill_exact older whole ((gain_exact older).mpr small)

theorem serve_level {account : Option Bucket} (on : cfg.ratePps ≠ 0) (exact' : Exact cfg account now) :
    ((serve cfg account now).1.map Bucket.level,(serve cfg account now).2.map UInt64.toNat) =
      (meter cfg).serve (account.map Bucket.level) now.toNat := by
  obtain ⟨whole,rest⟩ := exact' on
  cases account with
  | none =>
    simp only [serve,if_neg on,Option.map_some,Option.map_none,Meter.serve,Bucket.level,rest]
    rfl
  | some b =>
    obtain ⟨_,refilled⟩ := rest
    have cost : (meter cfg).cost = 1000 := rfl
    have short : (refill cfg now b).tokensMilli < 1000 ↔ ((meter cfg).refill now.toNat b.level).tokens < 1000 := by
      rw [← refilled,UInt64.lt_iff_toNat_lt]
      rfl
    simp only [serve,if_neg on,Option.map_some,Meter.serve,meet,Meter.take,cost,← refilled]
    rw [← refilled] at short
    by_cases less : (refill cfg now b).tokensMilli < 1000
    · rw [if_pos less,if_pos (short.mp less)]
      rfl
    · rw [if_neg less,if_neg (short.not.mp less)]
      have taken : ((refill cfg now b).tokensMilli - 1000).toNat = (refill cfg now b).tokensMilli.toNat - 1000 :=
        UInt64.toNat_sub_of_le _ _ (UInt64.not_lt.mp less)
      simp only [Bucket.level,taken,List.map_singleton]

end Packet

/-! ## Trains of packets -/

/-- A condition on the bucket that each packet of one source reaches. -/
def AtSource (src : Addr6) (P : Option Bucket → UInt64 → Prop) (buckets : Throttle) (x : Arrival) : Prop :=
  reaches src x = true → P (buckets.lookup src) x.now

instance (src : Addr6) (P : Option Bucket → UInt64 → Prop) [∀ account now, Decidable (P account now)]
    (buckets : Throttle) (x : Arrival) : Decidable (AtSource src P buckets x) := inferInstanceAs (Decidable (_ → _))

/-- How many packets of a source pass of a train. -/
def passed (cfg : Config) (src : Addr6) (buckets : Throttle) (arrivals : List Arrival) : Nat :=
  (run (arrive cfg) buckets arrivals).2.count src

section Trains
variable {cfg : Config} {src : Addr6} {buckets : Throttle}

/-- What holds of every packet of a source is what holds of those that its bucket meets. -/
theorem throughout_source {P : Option Bucket → UInt64 → Prop} (arrivals : List Arrival) :
    Throughout (arrive cfg) (AtSource src P) buckets arrivals ↔
      Throughout (serve cfg) P (buckets.lookup src) (stamps src arrivals) := by
  induction arrivals generalizing buckets with
  | nil => exact Iff.rfl
  | cons x rest ih =>
    have later := @ih (arrive cfg buckets x).1
    cases own : reaches src x with
    | false =>
      rw [(@arrive_misses cfg src buckets x own).1] at later
      rw [stamps,List.filter_cons_of_neg (by simp [own]),← stamps]
      exact (and_iff_right fun reached => absurd (own.symm.trans reached) (by decide)).trans later
    | true =>
      have met : (arrive cfg buckets x).1.lookup src = (serve cfg (buckets.lookup src) x.now).1 := by
        rw [arrive_reaches own]
        exact (throttle_serves cfg src buckets x.now).1
      rw [met] at later
      rw [stamps,List.filter_cons_of_pos own,List.map_cons,← stamps]
      exact and_congr (forall_prop_of_true own) later

theorem stamps_past {P : UInt64 → Prop} {arrivals : List Arrival} (all : ∀ x ∈ arrivals, P x.now) :
    ∀ now ∈ stamps src arrivals, P now := by
  intro now member
  obtain ⟨x,held,rfl⟩ := List.mem_map.mp member
  exact all x (List.mem_filter.mp held).1

theorem stamps_order {arrivals : List Arrival} (order : InOrder arrivals) :
    (stamps src arrivals).Pairwise (· ≤ ·) := List.pairwise_map.mpr (order.filter _)

theorem serve_lastNs {account : Option Bucket} {now : UInt64} (past : ∀ b ∈ account, b.lastNs ≤ now) :
    ∀ b ∈ (serve cfg account now).1, b.lastNs ≤ now := by
  intro left held
  simp only [serve] at held
  split_ifs at held
  · exact past left held
  · cases account with
    | none =>
      obtain rfl := Option.some.inj held
      exact UInt64.le_refl _
    | some b =>
      obtain rfl := Option.some.inj held
      rw [(meet_granted cfg b now).1]
      by_cases early : elapsedMs b now = 0
      · rw [refill_early early]
        exact past b rfl
      · rw [refill_due early]
        exact UInt64.le_refl _

theorem throughout_exact {account : Option Bucket} {times : List UInt64} (order : times.Pairwise (· ≤ ·))
    (past : ∀ b ∈ account, ∀ now ∈ times, b.lastNs ≤ now) :
    Throughout (serve cfg) (Exact cfg) account times ↔ Throughout (serve cfg) (Fits cfg) account times := by
  induction times generalizing account with
  | nil => exact Iff.rfl
  | cons now rest ih =>
    obtain ⟨ahead,later⟩ := List.pairwise_cons.mp order
    have entered : ∀ b ∈ account, b.lastNs ≤ now := fun b held => past b held now (by simp)
    refine and_congr (exact_iff entered) (ih later ?_)
    intro b held next member
    exact UInt64.le_trans (serve_lastNs entered b held) (ahead next member)

theorem run_level (on : cfg.ratePps ≠ 0) {account : Option Bucket} {times : List UInt64}
    (whole : Throughout (serve cfg) (Exact cfg) account times) :
    (run (serve cfg) account times).2.length =
      (run (meter cfg).serve (account.map Bucket.level) (times.map UInt64.toNat)).2.length := by
  induction times generalizing account with
  | nil => rfl
  | cons now rest ih =>
    obtain ⟨first,others⟩ := whole
    have step := serve_level on first
    rw [List.map_cons,run_cons,run_cons,List.length_append,List.length_append,ih others,← step,List.length_map]

theorem meter_generous {rate burst rate' burst' : UInt64} (on : rate ≠ 0) (faster : rate ≤ rate') (larger : burst ≤ burst') :
    (meter (stored rate burst)).Generous (meter (stored rate' burst')) := by
  have positive : 0 < rate := UInt64.pos_iff_ne_zero.mpr on
  have positive' : 0 < rate' := UInt64.lt_of_lt_of_le positive faster
  have less := UInt64.le_iff_toNat_le.mp larger
  have headroom (burst : UInt64) : (if burst = 0 then 1 else burst).toNat = max 1 burst.toNat := by
    split_ifs with none
    · rw [none]
      rfl
    · have some' : burst.toNat ≠ 0 := fun zero => none (UInt64.toNat_inj.mp zero)
      omega
  refine ⟨rfl,rfl,UInt64.le_iff_toNat_le.mp faster,?_⟩
  simp only [meter,stored,gt_iff_lt,positive,positive',true_and,headroom]
  omega

theorem meter_room {rate burst : UInt64} (on : rate ≠ 0) : (meter (stored rate burst)).cost ≤ (meter (stored rate burst)).cap := by
  have least : 1 ≤ (stored rate burst).burstPkts.toNat := by
    simp only [stored,gt_iff_lt,UInt64.pos_iff_ne_zero.mpr on,true_and]
    split_ifs with none
    · exact Nat.le_refl _
    · exact Nat.pos_of_ne_zero fun zero => none (UInt64.toNat_inj.mp zero)
  exact Nat.le_mul_of_pos_left 1000 least

/-- For every packet of a source in a train the arithmetic is that of the natural numbers. -/
def ExactThroughout (cfg : Config) (src : Addr6) (buckets : Throttle) (arrivals : List Arrival) : Prop :=
  Throughout (arrive cfg) (AtSource src (Exact cfg)) buckets arrivals

/-- For every packet of a source in a train the arithmetic fits in 64 bits. -/
def FitsThroughout (cfg : Config) (src : Addr6) (buckets : Throttle) (arrivals : List Arrival) : Prop :=
  Throughout (arrive cfg) (AtSource src (Fits cfg)) buckets arrivals

instance (cfg : Config) (src : Addr6) (buckets : Throttle) (arrivals : List Arrival) :
    Decidable (FitsThroughout cfg src buckets arrivals) := inferInstanceAs (Decidable (Throughout _ _ _ _))

theorem exactThroughout_iff {arrivals : List Arrival} (order : InOrder arrivals)
    (past : ∀ b ∈ buckets.lookup src, ∀ x ∈ arrivals, b.lastNs ≤ x.now) :
    ExactThroughout cfg src buckets arrivals ↔ FitsThroughout cfg src buckets arrivals := by
  rw [ExactThroughout,FitsThroughout,throughout_source,throughout_source]
  exact throughout_exact (stamps_order order) fun b held => stamps_past (past b held)

theorem passed_level (on : cfg.ratePps ≠ 0) {arrivals : List Arrival} (order : InOrder arrivals)
    (past : ∀ b ∈ buckets.lookup src, ∀ x ∈ arrivals, b.lastNs ≤ x.now) (fits : FitsThroughout cfg src buckets arrivals) :
    passed cfg src buckets arrivals = (run (meter cfg).serve ((buckets.lookup src).map Bucket.level)
      ((stamps src arrivals).map UInt64.toNat)).2.length := by
  rw [passed,(run_serves cfg src buckets arrivals).2]
  exact run_level on ((throughout_source arrivals).mp ((exactThroughout_iff order past).mpr fits))

theorem passed_longer {rate burst : UInt64} (on : rate ≠ 0) {arrivals : List Arrival} (order : InOrder arrivals)
    {buckets' : Throttle} {b b' : Bucket} (found : buckets.lookup src = some b) (found' : buckets'.lookup src = some b')
    (past : ∀ x ∈ arrivals, b.lastNs ≤ x.now) (same : b'.tokensMilli = b.tokensMilli) (longer : b'.lastNs ≤ b.lastNs)
    (fits : FitsThroughout (stored rate burst) src buckets arrivals)
    (fits' : FitsThroughout (stored rate burst) src buckets' arrivals)
    (start : (stamps src arrivals).length ≤ 1 ∨ ∀ first ∈ (stamps src arrivals).head?, elapsedMs b first ≠ 0) :
    passed (stored rate burst) src buckets arrivals ≤ passed (stored rate burst) src buckets' arrivals := by
  have pasts {buckets : Throttle} {b : Bucket} (found : buckets.lookup src = some b) (past : ∀ x ∈ arrivals, b.lastNs ≤ x.now) :
      ∀ b ∈ buckets.lookup src, ∀ x ∈ arrivals, b.lastNs ≤ x.now :=
    fun c held => Option.some.inj (found.symm.trans held) ▸ past
  have past' : ∀ x ∈ arrivals, b'.lastNs ≤ x.now := fun x member => UInt64.le_trans longer (past x member)
  have tokens : b'.level.tokens = b.level.tokens := congrArg UInt64.toNat same
  have since : b'.level.since ≤ b.level.since := UInt64.le_iff_toNat_le.mp longer
  have before : ∀ now ∈ stamps src arrivals, b.lastNs ≤ now := stamps_past past
  rw [passed_level on order (pasts found past) fits,passed_level on order (pasts found' past') fits']
  rw [found,found',Option.map_some,Option.map_some]
  cases times : stamps src arrivals with
  | nil => exact Nat.le_refl _
  | cons first rest =>
    rw [List.map_cons]
    rw [times] at start before
    rcases start with single | due
    · have none : rest = [] := List.eq_nil_of_length_eq_zero (by simpa using single)
      rw [none,List.map_nil,run_cons,run_cons,run_nil,run_nil,List.append_nil,List.append_nil]
      exact Meter.serve_longer (meter_room on) tokens since _
    · refine Meter.run_longer ?_ tokens since _
      have whole := elapsedMs_toNat (before first (by simp))
      exact fun zero => due first rfl (UInt64.toNat_inj.mp (whole.trans zero))

end Trains
end FipsShield.Guard
