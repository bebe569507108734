import FipsShield.Guard.Commands
import FipsShield.Guard.Throttle
import FipsShield.Library.Truncation

/-! The credit that the throttle grants to one source: over a train of packets in order, and
over packets that reach the bucket with stamps in any order. -/
namespace FipsShield.Guard
open Transducer Truncation

/-! ## The bucket of a source -/

/-- Whether a packet reaches the bucket of the source: it is its own, and no ban drops it. -/
def reaches (src : Addr6) (x : Arrival) : Bool :=
  x.skb.ipv6 && x.skb.saddr == some src &&
    !(x.bans.lookup src).any fun ban => ban.expiresMonoNs == 0 || ban.expiresMonoNs > x.now

/-- When the packets come that reach it. -/
def stamps (src : Addr6) (arrivals : List Arrival) : List UInt64 := (arrivals.filter (reaches src)).map Arrival.now

/-- The bucket after a packet, which is put out if it passes. -/
def meet (cfg : Config) (b : Bucket) (now : UInt64) : Bucket × List UInt64 :=
  let b := refill cfg now b
  if b.tokensMilli < 1000 then (b,[]) else ({b with tokensMilli := b.tokensMilli - 1000},[now])

/-- What a packet makes of the bucket of its source, which it starts if there is none. -/
def serve (cfg : Config) (account : Option Bucket) (now : UInt64) : Option Bucket × List UInt64 :=
  if cfg.ratePps = 0 then (account,[now])
  else match account with
  | none => (some (fresh cfg now),[now])
  | some b => (some (meet cfg b now).1,(meet cfg b now).2)

section Meet
variable {cfg : Config} {src : Addr6} {buckets : Throttle} {b : Bucket}

theorem throttle_serves (cfg : Config) (src : Addr6) (buckets : Throttle) (now : UInt64) :
    (throttle cfg buckets src now).2.lookup src = (serve cfg (buckets.lookup src) now).1 ∧
      (throttle cfg buckets src now).1 = !(serve cfg (buckets.lookup src) now).2.isEmpty := by
  by_cases off : cfg.ratePps = 0
  · simp [throttle,serve,off]
  · simp only [throttle,serve,if_neg off]
    cases found : buckets.lookup src with
    | none => exact ⟨AList.lookup_insert _,rfl⟩
    | some b =>
      simp only [meet]
      split_ifs
      · exact ⟨AList.lookup_insert _,rfl⟩
      · exact ⟨AList.lookup_insert _,rfl⟩

theorem serve_length (cfg : Config) (account : Option Bucket) (now : UInt64) : (serve cfg account now).2.length ≤ 1 := by
  cases account with
  | none =>
    simp only [serve]
    split_ifs <;> exact Nat.le_refl _
  | some b =>
    simp only [serve,meet]
    split_ifs <;> simp

theorem arrive_reaches {x : Arrival} (own : reaches src x = true) :
    arrive cfg buckets x = ((throttle cfg buckets src x.now).2,if (throttle cfg buckets src x.now).1 then [src] else []) := by
  obtain ⟨bans,⟨ipv6,saddr⟩,now⟩ := x
  simp only [reaches,Bool.and_eq_true,beq_iff_eq,Bool.not_eq_true'] at own
  obtain ⟨⟨rfl,rfl⟩,free⟩ := own
  simp only [arrive,shieldGuard]
  cases held : bans.lookup src with
  | none => cases (throttle cfg buckets src now).1 <;> simp
  | some ban =>
    rw [held,Option.any_some] at free
    cases (throttle cfg buckets src now).1 <;> simp [free]

theorem arrive_misses {x : Arrival} (other : reaches src x = false) :
    (arrive cfg buckets x).1.lookup src = buckets.lookup src ∧ (arrive cfg buckets x).2.count src = 0 := by
  obtain ⟨bans,⟨ipv6,saddr⟩,now⟩ := x
  rcases arrive_cases cfg buckets src ⟨bans,⟨ipv6,saddr⟩,now⟩ with same | _
  · exact same
  · cases ipv6 with
    | false => simp [arrive,shieldGuard]
    | true =>
      cases saddr with
      | none => simp [arrive,shieldGuard]
      | some source =>
        by_cases own : source = src
        · subst own
          cases held : bans.lookup source with
          | none => simp [reaches,held] at other
          | some ban =>
            have dropped : (ban.expiresMonoNs == 0 || ban.expiresMonoNs > now) = true := by
              simpa [reaches,held,or_iff_not_imp_left] using other
            simp [arrive,shieldGuard,held,dropped]
        · have same : (throttle cfg buckets source now).2.lookup src = buckets.lookup src := throttle_others (Ne.symm own)
          simp only [arrive,shieldGuard]
          cases bans.lookup source with
          | none => cases (throttle cfg buckets source now).1 <;> simp [same,own]
          | some ban =>
            by_cases dropped : (ban.expiresMonoNs == 0 || ban.expiresMonoNs > now) = true
            · simp [dropped]
            · cases (throttle cfg buckets source now).1 <;> simp [dropped,same,own]

/-- The bucket of a source meets its own packets of a train. -/
theorem run_serves (cfg : Config) (src : Addr6) (buckets : Throttle) (arrivals : List Arrival) :
    (run (arrive cfg) buckets arrivals).1.lookup src = (run (serve cfg) (buckets.lookup src) (stamps src arrivals)).1 ∧
      (run (arrive cfg) buckets arrivals).2.count src =
        (run (serve cfg) (buckets.lookup src) (stamps src arrivals)).2.length := by
  induction arrivals generalizing buckets with
  | nil => exact ⟨rfl,rfl⟩
  | cons x rest ih =>
    have later := ih (arrive cfg buckets x).1
    rw [run_cons,List.count_append]
    cases own : reaches src x with
    | false =>
      obtain ⟨same,none⟩ := @arrive_misses cfg src buckets x own
      rw [stamps,List.filter_cons_of_neg (by simp [own]),← stamps,none,Nat.zero_add,← same]
      exact later
    | true =>
      obtain ⟨left,passes⟩ := throttle_serves cfg src buckets x.now
      have one := serve_length cfg (buckets.lookup src) x.now
      have counted : (arrive cfg buckets x).2.count src = (serve cfg (buckets.lookup src) x.now).2.length := by
        rw [arrive_reaches own]
        simp only [passes]
        cases served : (serve cfg (buckets.lookup src) x.now).2 with
        | nil => rfl
        | cons first others =>
          rw [served] at one
          have single : others = [] := List.eq_nil_of_length_eq_zero (by simpa using one)
          simp [single]
      have met : (arrive cfg buckets x).1.lookup src = (serve cfg (buckets.lookup src) x.now).1 := by
        rw [arrive_reaches own]
        exact left
      rw [stamps,List.filter_cons_of_pos own,List.map_cons,← stamps,run_cons,List.length_append,counted,← met]
      exact ⟨later.1,congrArg _ later.2⟩

theorem serve_some (rate : cfg.ratePps ≠ 0) (b : Bucket) (times : List UInt64) :
    run (serve cfg) (some b) times = (some (run (meet cfg) b times).1,(run (meet cfg) b times).2) := by
  induction times generalizing b with
  | nil => rfl
  | cons now rest ih =>
    have step : serve cfg (some b) now = (some (meet cfg b now).1,(meet cfg b now).2) := if_neg rate
    rw [run_cons,run_cons,step,ih]

/-- Of a train that meets a bucket of the source, the bucket meets its own packets. -/
theorem run_meets (rate : cfg.ratePps ≠ 0) (found : buckets.lookup src = some b) (arrivals : List Arrival) :
    (run (arrive cfg) buckets arrivals).1.lookup src = some (run (meet cfg) b (stamps src arrivals)).1 ∧
      (run (arrive cfg) buckets arrivals).2.count src = (run (meet cfg) b (stamps src arrivals)).2.length := by
  have served := run_serves cfg src buckets arrivals
  rw [found,serve_some rate] at served
  exact served

end Meet

/-! ## What is granted -/

/-- The credit granted so far: what is left, and what was spent, beyond what was there. -/
def granted (b left : Bucket) (passed : Nat) : Int := left.tokensMilli.toNat + 1000 * passed - b.tokensMilli.toNat

def elapsedMs (b : Bucket) (now : UInt64) : UInt64 := (now - b.lastNs) / 1000000

section Granted
variable {cfg : Config} {b : Bucket} {now : UInt64}

theorem meet_granted (cfg : Config) (b : Bucket) (now : UInt64) :
    (meet cfg b now).1.lastNs = (refill cfg now b).lastNs ∧
      (meet cfg b now).1.tokensMilli.toNat + 1000 * (meet cfg b now).2.length = (refill cfg now b).tokensMilli.toNat := by
  simp only [meet]
  split_ifs with short
  · simp
  · have full : 1000 ≤ (refill cfg now b).tokensMilli := UInt64.not_lt.mp short
    have least : 1000 ≤ (refill cfg now b).tokensMilli.toNat := UInt64.le_iff_toNat_le.mp full
    have taken : ((refill cfg now b).tokensMilli - 1000).toNat = (refill cfg now b).tokensMilli.toNat - 1000 :=
      UInt64.toNat_sub_of_le _ _ full
    refine ⟨rfl,?_⟩
    simp only [taken,List.length_singleton]
    omega

theorem elapsedMs_toNat (past : b.lastNs ≤ now) : (elapsedMs b now).toNat = (now.toNat - b.lastNs.toNat) / 1000000 := by
  rw [elapsedMs,UInt64.toNat_div,UInt64.toNat_sub_of_le _ _ past]
  rfl

theorem elapsedMs_eq_zero (past : b.lastNs ≤ now) : elapsedMs b now = 0 ↔ now.toNat - b.lastNs.toNat < 1000000 := by
  rw [← UInt64.toNat_inj,elapsedMs_toNat past,UInt64.toNat_zero,Nat.div_eq_zero_iff]
  omega

theorem refill_early (early : elapsedMs b now = 0) : refill cfg now b = b := if_pos early

theorem refill_due (due : elapsedMs b now ≠ 0) : refill cfg now b =
    ⟨if cap cfg < b.tokensMilli + elapsedMs b now * cfg.ratePps then cap cfg
      else b.tokensMilli + elapsedMs b now * cfg.ratePps,now⟩ := if_neg due

end Granted

/-! ## Packets in order -/

/-- The bucket does not reach its cap with what a packet refills it by. -/
def Below (cfg : Config) (b : Bucket) (now : UInt64) : Prop :=
  b.tokensMilli.toNat + (elapsedMs b now).toNat * cfg.ratePps.toNat ≤ (cap cfg).toNat

instance (cfg : Config) (b : Bucket) (now : UInt64) : Decidable (Below cfg b now) := inferInstanceAs (Decidable (_ ≤ _))

/-- The times from one refill to the next, each at the first packet a millisecond or more after the last. -/
def refills (b : Bucket) (times : List UInt64) : List Nat := spans 1000000 b.lastNs.toNat (times.map UInt64.toNat)

section InOrder
variable {cfg : Config} {b : Bucket} {now : UInt64} {times : List UInt64}

theorem refill_below (below : Below cfg b now) (due : elapsedMs b now ≠ 0) :
    (refill cfg now b).tokensMilli.toNat = b.tokensMilli.toNat + (elapsedMs b now).toNat * cfg.ratePps.toNat := by
  have room := (cap cfg).toNat_lt
  have product : (elapsedMs b now * cfg.ratePps).toNat = (elapsedMs b now).toNat * cfg.ratePps.toNat := by
    rw [UInt64.toNat_mul,Nat.mod_eq_of_lt]
    unfold Below at below
    omega
  have sum : (b.tokensMilli + elapsedMs b now * cfg.ratePps).toNat =
      b.tokensMilli.toNat + (elapsedMs b now).toNat * cfg.ratePps.toNat := by
    rw [UInt64.toNat_add,product,Nat.mod_eq_of_lt]
    unfold Below at below
    omega
  have uncut : ¬ cap cfg < b.tokensMilli + elapsedMs b now * cfg.ratePps := by
    rw [UInt64.lt_iff_toNat_lt,sum]
    exact Nat.not_lt.mpr below
  rw [refill_due due,if_neg uncut]
  exact sum

/-- Below the cap each refill grants the rate for the whole milliseconds since the last one. -/
theorem run_granted (order : times.Pairwise (· ≤ ·)) (past : ∀ now ∈ times, b.lastNs ≤ now)
    (below : Throughout (meet cfg) (Below cfg) b times) :
    (run (meet cfg) b times).1.lastNs.toNat = b.lastNs.toNat + (refills b times).sum ∧
      (run (meet cfg) b times).1.tokensMilli.toNat + 1000 * (run (meet cfg) b times).2.length =
        b.tokensMilli.toNat + cfg.ratePps.toNat * wholes 1000000 (refills b times) := by
  induction times generalizing b with
  | nil => simp [refills,spans]
  | cons now rest ih =>
    obtain ⟨ahead,later⟩ := List.pairwise_cons.mp order
    obtain ⟨first,others⟩ := below
    have since := past now (by simp)
    obtain ⟨last,spent⟩ := meet_granted cfg b now
    have kept : ∀ later ∈ rest, (meet cfg b now).1.lastNs ≤ later := by
      intro later member
      rw [last]
      by_cases early : elapsedMs b now = 0
      · rw [refill_early early]
        exact past later (by simp [member])
      · rw [refill_due early]
        exact ahead later member
    obtain ⟨ends,grants⟩ := ih later kept others
    rw [run_cons,List.length_append]
    dsimp only
    by_cases early : elapsedMs b now = 0
    · have short := (elapsedMs_eq_zero since).mp early
      have same : refills (meet cfg b now).1 rest = refills b (now::rest) := by
        rw [refills,refills,List.map_cons,spans_early short,last,refill_early early]
      rw [refill_early early] at last spent
      rw [same] at ends grants
      rw [last] at ends
      exact ⟨ends,by omega⟩
    · have whole := Nat.not_lt.mp (mt (elapsedMs_eq_zero since).mpr early)
      have filled := refill_below first early
      have next : refills b (now::rest) = (now.toNat - b.lastNs.toNat)::refills (meet cfg b now).1 rest := by
        rw [refills,List.map_cons,spans_due whole,refills,last,refill_due early]
      rw [refill_due early] at last
      have order := UInt64.le_iff_toNat_le.mp since
      rw [next,List.sum_cons,wholes_cons,Nat.mul_add cfg.ratePps.toNat]
      rw [elapsedMs_toNat since,Nat.mul_comm] at filled
      have settled := congrArg UInt64.toNat last
      dsimp only at settled
      exact ⟨by omega,by omega⟩

end InOrder

/-- Below its cap a bucket is granted, from one refill to a later one, the rate for the time
between them to within a millisecond, exactly where the times from each refill to the next
leave less than two milliseconds beyond whole ones. -/
theorem credit_elapsed_iff {cfg : Config} {src : Addr6} {buckets : Throttle} {b : Bucket} {arrivals : List Arrival}
    (rate : cfg.ratePps ≠ 0) (found : buckets.lookup src = some b)
    (order : (stamps src arrivals).Pairwise (· ≤ ·)) (past : ∀ now ∈ stamps src arrivals, b.lastNs ≤ now)
    (below : Throughout (meet cfg) (Below cfg) b (stamps src arrivals)) :
    let done := run (arrive cfg) buckets arrivals
    ∃ left, done.1.lookup src = some left ∧
      (|granted b left (done.2.count src) -
          cfg.ratePps.toNat * ((left.lastNs.toNat - b.lastNs.toNat) / 1000000 : Nat)| ≤ cfg.ratePps.toNat ↔
        remainders 1000000 (refills b (stamps src arrivals)) < 2000000) := by
  intro done
  obtain ⟨kept,counted⟩ := run_meets rate found arrivals
  obtain ⟨ends,grants⟩ := run_granted order past below
  have positive : 0 < cfg.ratePps.toNat := Nat.pos_of_ne_zero fun zero => rate (UInt64.toNat_inj.mp zero)
  have credit : granted b (run (meet cfg) b (stamps src arrivals)).1 (done.2.count src) =
      cfg.ratePps.toNat * wholes 1000000 (refills b (stamps src arrivals)) := by
    rw [granted,counted]
    omega
  refine ⟨_,kept,?_⟩
  rw [credit,ends,Nat.add_sub_cancel_left]
  exact within_unit (by decide) positive _

/-- A packet of the node, which no ban drops. -/
def comes (now : UInt64) : Arrival := ⟨∅,⟨true,some node⟩,now⟩

/-- Two refills one and a half milliseconds apart leave a millisecond. -/
theorem credit_elapsed_two :
    let done := run (arrive ⟨1000,1000⟩) (AList.singleton node ⟨0,0⟩) [comes 1500000,comes 3000000]
    ∃ left, done.1.lookup node = some left ∧
      |granted ⟨0,0⟩ left (done.2.count node) -
        (1000 : UInt64).toNat * ((left.lastNs.toNat - (0 : UInt64).toNat) / 1000000 : Nat)| ≤ (1000 : UInt64).toNat := by
  intro done
  obtain ⟨left,found,within⟩ := @credit_elapsed_iff ⟨1000,1000⟩ node (AList.singleton node ⟨0,0⟩) ⟨0,0⟩
    [comes 1500000,comes 3000000] (by decide) (by decide) (by decide) (fun _ _ => UInt64.zero_le) (by decide)
  exact ⟨left,found,within.mpr (by decide)⟩

/-- Of refills 1.9 milliseconds apart each loses nearly a half. -/
theorem credit_lost : ¬ ∀ (cfg : Config) (src : Addr6) (buckets : Throttle) (b left : Bucket) (arrivals : List Arrival),
    cfg.ratePps ≠ 0 → buckets.lookup src = some b → (stamps src arrivals).Pairwise (· ≤ ·) →
    (∀ now ∈ stamps src arrivals, b.lastNs ≤ now) → Throughout (meet cfg) (Below cfg) b (stamps src arrivals) →
    (run (arrive cfg) buckets arrivals).1.lookup src = some left →
    |granted b left ((run (arrive cfg) buckets arrivals).2.count src) -
      cfg.ratePps.toNat * ((left.lastNs.toNat - b.lastNs.toNat) / 1000000 : Nat)| ≤ cfg.ratePps.toNat := by
  intro claim
  have within := claim ⟨1000,1000⟩ node (AList.singleton node ⟨0,0⟩) ⟨0,0⟩ ⟨0,5700000⟩
    [comes 1900000,comes 3800000,comes 5700000] (by decide) (by decide) (by decide) (fun _ _ => UInt64.zero_le)
    (by decide) (by decide)
  exact absurd within (by decide)

/-! ## Packets in any order -/

/-- The stamp of a packet is not older than the bucket's, or by so much that the difference
wraps to less than a millisecond. -/
def Timely (b : Bucket) (now : UInt64) : Prop := b.lastNs ≤ now ∨ 2 ^ 64 - 1000000 < b.lastNs.toNat - now.toNat

instance (b : Bucket) (now : UInt64) : Decidable (Timely b now) := inferInstanceAs (Decidable (_ ∨ _))

section AnyOrder
variable {cfg : Config} {b : Bucket} {now : UInt64} {times : List UInt64}

/-- The difference to an older stamp wraps. -/
theorem elapsedMs_older (older : now < b.lastNs) :
    (elapsedMs b now).toNat = (2 ^ 64 - (b.lastNs.toNat - now.toNat)) / 1000000 := by
  have order := UInt64.lt_iff_toNat_lt.mp older
  have bound := b.lastNs.toNat_lt
  rw [elapsedMs,UInt64.toNat_div,UInt64.toNat_sub]
  have unit : (1000000 : UInt64).toNat = 1000000 := rfl
  rw [unit]
  omega

theorem older_early (older : now < b.lastNs) : elapsedMs b now = 0 ↔ 2 ^ 64 - 1000000 < b.lastNs.toNat - now.toNat := by
  rw [← UInt64.toNat_inj,elapsedMs_older older,UInt64.toNat_zero]
  have order := UInt64.lt_iff_toNat_lt.mp older
  have bound := b.lastNs.toNat_lt
  omega

/-- A packet with an older stamp gains nothing only where the difference wraps to nothing, or
the bucket is at its cap, or what is added wraps too. -/
theorem older_gains_iff (cfg : Config) (older : now < b.lastNs) :
    (refill cfg now b).tokensMilli ≤ b.tokensMilli ↔ 2 ^ 64 - 1000000 < b.lastNs.toNat - now.toNat ∨
      cap cfg ≤ b.tokensMilli ∨ b.tokensMilli + elapsedMs b now * cfg.ratePps ≤ b.tokensMilli := by
  rw [← older_early older]
  by_cases early : elapsedMs b now = 0
  · rw [refill_early early]
    exact iff_of_true (UInt64.le_refl _) (Or.inl early)
  · rw [refill_due early]
    dsimp only
    split_ifs with above
    · have cut (most : b.tokensMilli + elapsedMs b now * cfg.ratePps ≤ b.tokensMilli) : cap cfg ≤ b.tokensMilli :=
        UInt64.le_trans (UInt64.le_of_lt above) most
      tauto
    · have uncut (most : cap cfg ≤ b.tokensMilli) : b.tokensMilli + elapsedMs b now * cfg.ratePps ≤ b.tokensMilli :=
        UInt64.le_trans (UInt64.not_lt.mp above) most
      tauto

theorem timely_flows (timely : Timely b now) :
    (1000000 * (refill cfg now b).tokensMilli.toNat + cfg.ratePps.toNat * b.lastNs.toNat ≤
      1000000 * b.tokensMilli.toNat + cfg.ratePps.toNat * (refill cfg now b).lastNs.toNat) ∧
    ((refill cfg now b).lastNs = b.lastNs ∨ (refill cfg now b).lastNs = now) ∧
    (now < b.lastNs → (refill cfg now b).tokensMilli ≤ b.tokensMilli) := by
  by_cases past : b.lastNs ≤ now
  · refine ⟨refill_flows past,?_,fun older => absurd past (UInt64.not_le.mpr older)⟩
    by_cases early : elapsedMs b now = 0
    · exact Or.inl (by rw [refill_early early])
    · exact Or.inr (by rw [refill_due early])
  · have early := (older_early (UInt64.not_le.mp past)).mpr (timely.resolve_left past)
    rw [refill_early early]
    exact ⟨Nat.le_refl _,Or.inl rfl,fun _ => UInt64.le_refl _⟩

theorem run_flows (timely : Throughout (meet cfg) Timely b times) :
    (1000000 * ((run (meet cfg) b times).1.tokensMilli.toNat + 1000 * (run (meet cfg) b times).2.length) +
        cfg.ratePps.toNat * b.lastNs.toNat ≤
      1000000 * b.tokensMilli.toNat + cfg.ratePps.toNat * (run (meet cfg) b times).1.lastNs.toNat) ∧
    (run (meet cfg) b times).1.lastNs ∈ b.lastNs::times := by
  induction times generalizing b with
  | nil => simp
  | cons now rest ih =>
    obtain ⟨first,others⟩ := timely
    obtain ⟨flows,last,_⟩ := @timely_flows cfg b now first
    obtain ⟨same,spent⟩ := meet_granted cfg b now
    obtain ⟨later,ends⟩ := ih others
    rw [← same] at flows last
    rw [run_cons,List.length_append]
    refine ⟨?_,?_⟩
    · dsimp only
      omega
    · rcases List.mem_cons.mp ends with own | after
      · rcases last with kept | moved
        · exact List.mem_cons.mpr (Or.inl (own.trans kept))
        · exact List.mem_cons_of_mem _ (List.mem_cons.mpr (Or.inl (own.trans moved)))
      · exact List.mem_cons_of_mem _ (List.mem_cons_of_mem _ after)

end AnyOrder

/-- Where the stamp of every packet is timely when it reaches the bucket, none with an older
stamp gains credit, and all gain at most the rate for the span of the stamps. -/
theorem credit_spanned {cfg : Config} {src : Addr6} {buckets : Throttle} {b : Bucket} {arrivals : List Arrival}
    (rate : cfg.ratePps ≠ 0) (found : buckets.lookup src = some b)
    (timely : Throughout (meet cfg) Timely b (stamps src arrivals)) :
    let done := run (arrive cfg) buckets arrivals
    (∀ (b : Bucket) (now : UInt64), now < b.lastNs →
      ((refill cfg now b).tokensMilli ≤ b.tokensMilli ↔ 2 ^ 64 - 1000000 < b.lastNs.toNat - now.toNat ∨
        cap cfg ≤ b.tokensMilli ∨ b.tokensMilli + elapsedMs b now * cfg.ratePps ≤ b.tokensMilli)) ∧
    Throughout (meet cfg) (fun b now => now < b.lastNs → (refill cfg now b).tokensMilli ≤ b.tokensMilli) b
        (stamps src arrivals) ∧
      ∃ left, done.1.lookup src = some left ∧
        ∀ least most : UInt64, (∀ now ∈ b.lastNs::stamps src arrivals, least ≤ now ∧ now ≤ most) →
          1000000 * granted b left (done.2.count src) ≤ cfg.ratePps.toNat * (most.toNat - least.toNat : Nat) := by
  intro done
  obtain ⟨kept,counted⟩ := run_meets rate found arrivals
  obtain ⟨flows,ends⟩ := run_flows timely
  refine ⟨fun b now => older_gains_iff cfg,?_,_,kept,fun least most spanned => ?_⟩
  · exact timely.implies (K := fun _ => True) (fun _ _ _ => trivial) (fun b now _ _ first => (timely_flows first).2.2)
      trivial timely
  · obtain ⟨begins,_⟩ := spanned b.lastNs (by simp)
    obtain ⟨_,finishes⟩ := spanned _ ends
    obtain ⟨order,_⟩ := spanned _ ends
    have started := Nat.mul_le_mul_left cfg.ratePps.toNat (UInt64.le_iff_toNat_le.mp begins)
    have ended := Nat.mul_le_mul_left cfg.ratePps.toNat (UInt64.le_iff_toNat_le.mp finishes)
    have span : cfg.ratePps.toNat * (most.toNat - least.toNat) + cfg.ratePps.toNat * least.toNat =
        cfg.ratePps.toNat * most.toNat := by
      rw [← Nat.mul_add,Nat.sub_add_cancel (UInt64.le_iff_toNat_le.mp (UInt64.le_trans order finishes))]
    rw [granted,counted,← Nat.cast_mul]
    omega

/-- Two packets with one stamp gain nothing of each other. -/
theorem credit_spanned_tie :
    let done := run (arrive ⟨1000,1000⟩) (AList.singleton node ⟨5000,7⟩) [comes 2000007,comes 2000007]
    (∀ (b : Bucket) (now : UInt64), now < b.lastNs →
      ((refill ⟨1000,1000⟩ now b).tokensMilli ≤ b.tokensMilli ↔ 2 ^ 64 - 1000000 < b.lastNs.toNat - now.toNat ∨
        cap ⟨1000,1000⟩ ≤ b.tokensMilli ∨ b.tokensMilli + elapsedMs b now * 1000 ≤ b.tokensMilli)) ∧
    Throughout (meet ⟨1000,1000⟩)
        (fun b now => now < b.lastNs → (refill ⟨1000,1000⟩ now b).tokensMilli ≤ b.tokensMilli) ⟨5000,7⟩
        (stamps node [comes 2000007,comes 2000007]) ∧
      ∃ left, done.1.lookup node = some left ∧
        ∀ least most : UInt64, (∀ now ∈ (7 : UInt64)::stamps node [comes 2000007,comes 2000007], least ≤ now ∧ now ≤ most) →
          1000000 * granted ⟨5000,7⟩ left (done.2.count node) ≤
            (1000 : UInt64).toNat * (most.toNat - least.toNat : Nat) :=
  credit_spanned (by decide) (by decide) (by decide)

/-- A packet a nanosecond older than the last one fills the bucket. -/
theorem older_refills : ¬ ∀ (cfg : Config) (src : Addr6) (buckets : Throttle) (b left : Bucket) (arrivals : List Arrival)
    (least most : UInt64), cfg.ratePps ≠ 0 → buckets.lookup src = some b →
    (run (arrive cfg) buckets arrivals).1.lookup src = some left →
    (∀ now ∈ b.lastNs::stamps src arrivals, least ≤ now ∧ now ≤ most) →
    1000000 * granted b left ((run (arrive cfg) buckets arrivals).2.count src) ≤
      cfg.ratePps.toNat * (most.toNat - least.toNat : Nat) := by
  intro claim
  have own : stamps node [comes 1] = [1] := by decide
  have bounded := claim ⟨1000,1000⟩ node (AList.singleton node ⟨0,2⟩) ⟨0,2⟩ ⟨999000,1⟩ [comes 1] 1 2 (by decide)
    (by decide) (by decide)
    (List.forall_mem_cons.mpr ⟨by decide,own ▸ List.forall_mem_singleton.mpr (by decide)⟩)
  exact absurd bounded (by decide)

end FipsShield.Guard
