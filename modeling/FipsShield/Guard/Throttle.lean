import FipsShield.Guard.Classifier
import FipsShield.Library.Transducer
import Mathlib.Data.Rat.Cast.Order
import Mathlib.Tactic.Linarith

/-! The throttle of the classifier over trains of packets: how many of one source pass
between any two of them, whatever arrives from others and however far apart. -/
namespace FipsShield.Guard
open Transducer

/-- A packet, when it arrives, and the bans that it meets. -/
structure Arrival where
  bans : Bans
  skb : Packet
  now : UInt64

/-- The buckets after a packet, and its source if it passes. -/
def arrive (cfg : Config) (buckets : Throttle) (x : Arrival) : Throttle × List Addr6 :=
  let done := shieldGuard x.bans cfg buckets x.skb x.now
  (done.2.2,if done.2.1 = .passed then x.skb.saddr.toList else [])

def InOrder (arrivals : List Arrival) : Prop := arrivals.Pairwise fun x y => x.now ≤ y.now

/-! ## One packet -/

/-- What a bucket has left at a time, when so many packets passed: no more than the burst,
and no more than it had and has gained since its own time. -/
structure Spends (cfg : Config) (now : UInt64) (b left : Bucket) (passed : Nat) : Prop where
  within : 1000 * passed + left.tokensMilli.toNat ≤ 1000 * cfg.burstPkts.toNat
  flows : 1000000 * (1000 * passed + left.tokensMilli.toNat) + cfg.ratePps.toNat * b.lastNs.toNat ≤
    1000000 * b.tokensMilli.toNat + cfg.ratePps.toNat * left.lastNs.toNat
  past : left.lastNs ≤ now

section Packet
variable {cfg : Config} {b : Bucket} {now : UInt64} {buckets : Throttle} {src : Addr6}

theorem cap_le (cfg : Config) : (cap cfg).toNat ≤ 1000 * cfg.burstPkts.toNat := by
  rw [cap,UInt64.toNat_mul,Nat.mul_comm 1000]
  exact Nat.mod_le _ _

/-- The tokens after a whole number of milliseconds, even where a product or the sum wraps. -/
theorem gained_le (b : Bucket) (elapsedMs rate : UInt64) :
    (b.tokensMilli + elapsedMs * rate).toNat ≤ b.tokensMilli.toNat + elapsedMs.toNat * rate.toNat := by
  rw [UInt64.toNat_add,UInt64.toNat_mul]
  calc (b.tokensMilli.toNat + elapsedMs.toNat * rate.toNat % 2 ^ 64) % 2 ^ 64
      ≤ b.tokensMilli.toNat + elapsedMs.toNat * rate.toNat % 2 ^ 64 := Nat.mod_le _ _
    _ ≤ b.tokensMilli.toNat + elapsedMs.toNat * rate.toNat := Nat.add_le_add_left (Nat.mod_le _ _) _

/-- No refill grants more than the rate for the time since the bucket's own. -/
theorem refill_flows (past : b.lastNs ≤ now) :
    1000000 * (refill cfg now b).tokensMilli.toNat + cfg.ratePps.toNat * b.lastNs.toNat ≤
      1000000 * b.tokensMilli.toNat + cfg.ratePps.toNat * (refill cfg now b).lastNs.toNat := by
  have order := UInt64.le_iff_toNat_le.mp past
  have elapsed : ((now - b.lastNs) / 1000000).toNat = (now.toNat - b.lastNs.toNat) / 1000000 := by
    rw [UInt64.toNat_div,UInt64.toNat_sub_of_le _ _ past]
    rfl
  have filled (tokens : UInt64) (less : tokens ≤ b.tokensMilli + (now - b.lastNs) / 1000000 * cfg.ratePps) :
      1000000 * tokens.toNat + cfg.ratePps.toNat * b.lastNs.toNat ≤
        1000000 * b.tokensMilli.toNat + cfg.ratePps.toNat * now.toNat := by
    have gained := (UInt64.le_iff_toNat_le.mp less).trans (gained_le b ((now - b.lastNs) / 1000000) cfg.ratePps)
    have flow : 1000000 * (((now - b.lastNs) / 1000000).toNat * cfg.ratePps.toNat) + cfg.ratePps.toNat * b.lastNs.toNat ≤
        cfg.ratePps.toNat * now.toNat := by
      rw [elapsed,Nat.mul_comm _ cfg.ratePps.toNat,Nat.mul_left_comm,← Nat.mul_add]
      exact Nat.mul_le_mul_left _ (by omega)
    omega
  simp only [refill]
  split_ifs with still above
  · exact Nat.le_refl _
  · exact filled _ (UInt64.le_of_lt above)
  · exact filled _ (UInt64.le_refl _)

theorem refill_spends (past : b.lastNs ≤ now) (within : b.tokensMilli.toNat ≤ 1000 * cfg.burstPkts.toNat) :
    Spends cfg now b (refill cfg now b) 0 ∧ now.toNat < (refill cfg now b).lastNs.toNat + 1000000 := by
  have flows := @refill_flows cfg b now past
  have capped {tokens : UInt64} (capped : tokens ≤ cap cfg) : tokens.toNat ≤ 1000 * cfg.burstPkts.toNat :=
    (UInt64.le_iff_toNat_le.mp capped).trans (cap_le cfg)
  have order := UInt64.le_iff_toNat_le.mp past
  suffices kept : (refill cfg now b).tokensMilli.toNat ≤ 1000 * cfg.burstPkts.toNat ∧
      (refill cfg now b).lastNs ≤ now ∧ now.toNat < (refill cfg now b).lastNs.toNat + 1000000 by
    obtain ⟨most,last,recent⟩ := kept
    exact ⟨⟨by omega,by omega,last⟩,recent⟩
  simp only [refill]
  split_ifs with still above
  · have zero : (now.toNat - b.lastNs.toNat) / 1000000 = 0 := by
      rw [← UInt64.toNat_sub_of_le _ _ past]
      exact congrArg UInt64.toNat still
    exact ⟨within,past,by omega⟩
  · exact ⟨capped (UInt64.le_refl _),UInt64.le_refl _,Nat.lt_add_of_pos_right (by decide)⟩
  · exact ⟨capped (UInt64.not_lt.mp above),UInt64.le_refl _,Nat.lt_add_of_pos_right (by decide)⟩

/-- A packet of the source meets its bucket: it takes a whole token, or is dropped. -/
theorem throttle_spends (rate : cfg.ratePps ≠ 0) (found : buckets.lookup src = some b) (past : b.lastNs ≤ now)
    (within : b.tokensMilli.toNat ≤ 1000 * cfg.burstPkts.toNat) :
    ∃ left, (throttle cfg buckets src now).2.lookup src = some left ∧
      Spends cfg now b left (if (throttle cfg buckets src now).1 then 1 else 0) ∧
        now.toNat < left.lastNs.toNat + 1000000 := by
  obtain ⟨refilled,recent⟩ := refill_spends past within
  by_cases short : (refill cfg now b).tokensMilli < 1000
  · simp only [throttle,if_neg rate,found,if_pos short]
    exact ⟨refill cfg now b,AList.lookup_insert _,by simpa using refilled,recent⟩
  · simp only [throttle,if_neg rate,found,if_neg short]
    refine ⟨_,AList.lookup_insert _,?_⟩
    have full : 1000 ≤ (refill cfg now b).tokensMilli := UInt64.not_lt.mp short
    have taken : ((refill cfg now b).tokensMilli - 1000).toNat = (refill cfg now b).tokensMilli.toNat - 1000 :=
      UInt64.toNat_sub_of_le _ _ full
    have least : 1000 ≤ (refill cfg now b).tokensMilli.toNat := UInt64.le_iff_toNat_le.mp full
    obtain ⟨within,flows,past⟩ := refilled
    rw [if_pos trivial]
    refine ⟨⟨?_,?_,past⟩,recent⟩
    · rw [taken]
      omega
    · dsimp only
      rw [taken]
      omega

theorem throttle_starts (now : UInt64) (rate : cfg.ratePps ≠ 0) (burst : 1 ≤ cfg.burstPkts) (absent : buckets.lookup src = none) :
    (throttle cfg buckets src now).1 = true ∧ (throttle cfg buckets src now).2.lookup src = some (fresh cfg now) ∧
      1000 + (fresh cfg now).tokensMilli.toNat ≤ 1000 * cfg.burstPkts.toNat := by
  simp only [throttle,if_neg rate,absent]
  refine ⟨trivial,AList.lookup_insert _,?_⟩
  have least : 1 ≤ cfg.burstPkts.toNat := UInt64.le_iff_toNat_le.mp burst
  have capped := cap_le cfg
  simp only [fresh]
  split_ifs with room
  · have above := UInt64.lt_iff_toNat_lt.mp room
    rw [UInt64.toNat_sub_of_le _ _ (UInt64.le_of_lt room)]
    have unit : (1000 : UInt64).toNat = 1000 := rfl
    omega
  · have zero : (0 : UInt64).toNat = 0 := rfl
    omega

theorem throttle_others {other : Addr6} (apart : src ≠ other) :
    (throttle cfg buckets other now).2.lookup src = buckets.lookup src := by
  unfold throttle
  split_ifs
  · rfl
  · split
    · exact AList.lookup_insert_ne apart
    · dsimp only
      split_ifs <;> exact AList.lookup_insert_ne apart

/-- A packet leaves the bucket of a source alone, or is one of its own that meets it. -/
theorem arrive_cases (cfg : Config) (buckets : Throttle) (src : Addr6) (x : Arrival) :
    ((arrive cfg buckets x).1.lookup src = buckets.lookup src ∧ (arrive cfg buckets x).2.count src = 0) ∨
      (arrive cfg buckets x).1 = (throttle cfg buckets src x.now).2 ∧
        (arrive cfg buckets x).2.count src = if (throttle cfg buckets src x.now).1 then 1 else 0 := by
  obtain ⟨bans,⟨ipv6,saddr⟩,now⟩ := x
  cases ipv6 with
  | false => exact Or.inl ⟨rfl,by simp [arrive,shieldGuard]⟩
  | true =>
    cases saddr with
    | none => exact Or.inl ⟨rfl,by simp [arrive,shieldGuard]⟩
    | some other =>
      have handled : ∃ dropped : Bool, shieldGuard bans cfg buckets ⟨true,some other⟩ now =
          if dropped then (.shot,.droppedBan,buckets)
          else if (throttle cfg buckets other now).1 then (.ok,.passed,(throttle cfg buckets other now).2)
          else (.shot,.droppedThrottle,(throttle cfg buckets other now).2) := ⟨_,rfl⟩
      obtain ⟨dropped,handled⟩ := handled
      simp only [arrive,handled,Option.toList_some]
      cases dropped with
      | true => exact Or.inl ⟨rfl,by simp⟩
      | false =>
        by_cases own : src = other
        · subst own
          refine Or.inr ?_
          cases (throttle cfg buckets src now).1 <;> simp
        · refine Or.inl ?_
          have same : (throttle cfg buckets other now).2.lookup src = buckets.lookup src := throttle_others own
          cases (throttle cfg buckets other now).1 <;> simp [same,Ne.symm own]

end Packet

/-! ## Trains of packets -/

section Trains
variable {cfg : Config} {src : Addr6}

theorem run_spends (rate : cfg.ratePps ≠ 0) {arrivals : List Arrival} {buckets : Throttle} {b : Bucket} {till : UInt64}
    (order : InOrder arrivals) (until' : ∀ x ∈ arrivals, x.now ≤ till) (found : buckets.lookup src = some b)
    (past : ∀ x ∈ arrivals, b.lastNs ≤ x.now) (before : b.lastNs ≤ till)
    (within : b.tokensMilli.toNat ≤ 1000 * cfg.burstPkts.toNat) :
    ∃ left, (run (arrive cfg) buckets arrivals).1.lookup src = some left ∧
      left.tokensMilli.toNat ≤ 1000 * cfg.burstPkts.toNat ∧ left.lastNs ≤ till ∧
      1000000 * (1000 * (run (arrive cfg) buckets arrivals).2.count src + left.tokensMilli.toNat) +
          cfg.ratePps.toNat * b.lastNs.toNat ≤
        1000000 * b.tokensMilli.toNat + cfg.ratePps.toNat * left.lastNs.toNat := by
  induction arrivals generalizing buckets b with
  | nil => exact ⟨b,found,within,before,by simp⟩
  | cons x rest ih =>
    obtain ⟨ahead,later⟩ := List.pairwise_cons.mp order
    rw [run_cons,List.count_append]
    rcases arrive_cases cfg buckets src x with ⟨same,none⟩ | ⟨own,count⟩
    · rw [none,Nat.zero_add]
      exact ih later (fun y member => until' y (by simp [member])) (same.trans found)
        (fun y member => past y (by simp [member])) before within
    · obtain ⟨left,held,spends,_⟩ := throttle_spends rate found (past x (by simp)) within
      rw [← own] at held
      rw [← count] at spends
      obtain ⟨final,found,within,last,flows⟩ := ih later (fun y member => until' y (by simp [member])) held
        (fun y member => UInt64.le_trans spends.past (ahead y member)) (UInt64.le_trans spends.past (until' x (by simp)))
        (by have := spends.within; omega)
      refine ⟨final,found,within,last,?_⟩
      have first := spends.flows
      omega

/-- Whatever bucket a source has is within the burst and no later than a time. -/
def Held (cfg : Config) (src : Addr6) (buckets : Throttle) (now : UInt64) : Prop :=
  ∀ b, buckets.lookup src = some b → b.tokensMilli.toNat ≤ 1000 * cfg.burstPkts.toNat ∧ b.lastNs ≤ now

theorem arrive_held (rate : cfg.ratePps ≠ 0) (burst : 1 ≤ cfg.burstPkts) {buckets : Throttle} {x : Arrival}
    (held : Held cfg src buckets x.now) : Held cfg src (arrive cfg buckets x).1 x.now := by
  intro left found
  rcases arrive_cases cfg buckets src x with ⟨same,_⟩ | ⟨own,_⟩
  · exact held left (same ▸ found)
  · rw [own] at found
    cases absent : buckets.lookup src with
    | none =>
      obtain ⟨_,started,within⟩ := throttle_starts x.now rate burst absent
      obtain rfl := Option.some.inj (started.symm.trans found)
      exact ⟨by omega,UInt64.le_refl _⟩
    | some b =>
      obtain ⟨within,past⟩ := held b absent
      obtain ⟨after,kept,spends,_⟩ := throttle_spends rate absent past within
      obtain rfl := Option.some.inj (kept.symm.trans found)
      have most := spends.within
      exact ⟨by omega,spends.past⟩

theorem Held.later {buckets : Throttle} {now later : UInt64} (held : Held cfg src buckets now) (passes : now ≤ later) :
    Held cfg src buckets later :=
  fun b found => ⟨(held b found).1,UInt64.le_trans (held b found).2 passes⟩

theorem run_held (rate : cfg.ratePps ≠ 0) (burst : 1 ≤ cfg.burstPkts) {arrivals : List Arrival} {buckets : Throttle}
    {since till : UInt64} (order : InOrder arrivals) (after : ∀ x ∈ arrivals, since ≤ x.now)
    (until' : ∀ x ∈ arrivals, x.now ≤ till) (passes : since ≤ till) (held : Held cfg src buckets since) :
    Held cfg src (run (arrive cfg) buckets arrivals).1 till := by
  induction arrivals generalizing buckets since with
  | nil => exact held.later passes
  | cons x rest ih =>
    obtain ⟨ahead,later⟩ := List.pairwise_cons.mp order
    rw [run_cons]
    exact ih later ahead (fun y member => until' y (by simp [member])) (until' x (by simp))
      (arrive_held rate burst (held.later (after x (by simp))))

/-- A window of the train: its first own packet starts the bucket, or meets one less than
a millisecond old. -/
theorem window_spends (rate : cfg.ratePps ≠ 0) (burst : 1 ≤ cfg.burstPkts) {arrivals : List Arrival}
    {buckets : Throttle} {since till : UInt64} (order : InOrder arrivals) (after : ∀ x ∈ arrivals, since ≤ x.now)
    (until' : ∀ x ∈ arrivals, x.now ≤ till) (passes : since ≤ till) (held : Held cfg src buckets since) :
    1000000000 * (run (arrive cfg) buckets arrivals).2.count src + cfg.ratePps.toNat * since.toNat ≤
      1000000000 * cfg.burstPkts.toNat + cfg.ratePps.toNat * (till.toNat + 1000000) := by
  induction arrivals generalizing buckets since with
  | nil =>
    have grows := Nat.mul_le_mul_left cfg.ratePps.toNat (UInt64.le_iff_toNat_le.mp passes)
    rw [Nat.mul_add]
    simp only [run_nil,List.count_nil]
    omega
  | cons x rest ih =>
    obtain ⟨ahead,later⟩ := List.pairwise_cons.mp order
    have bounded : ∀ y ∈ rest, y.now ≤ till := fun y member => until' y (by simp [member])
    have entered := Nat.mul_le_mul_left cfg.ratePps.toNat (UInt64.le_iff_toNat_le.mp (after x (by simp)))
    have first := ih later ahead bounded (until' x (by simp)) (arrive_held rate burst (held.later (after x (by simp))))
    rw [run_cons,List.count_append]
    rcases arrive_cases cfg buckets src x with ⟨_,none⟩ | ⟨own,count⟩
    · rw [none]
      omega
    · cases absent : buckets.lookup src with
      | none =>
        obtain ⟨passed,started,within⟩ := throttle_starts x.now rate burst absent
        rw [← own] at started
        obtain ⟨left,_,_,last,flows⟩ := run_spends rate later bounded started ahead (until' x (by simp)) (by omega)
        have ends := Nat.mul_le_mul_left cfg.ratePps.toNat (UInt64.le_iff_toNat_le.mp last)
        have begins : (fresh cfg x.now).lastNs = x.now := rfl
        rw [begins] at flows
        rw [count,passed,if_pos rfl,Nat.mul_add cfg.ratePps.toNat]
        omega
      | some b =>
        obtain ⟨within,past⟩ := held.later (after x (by simp)) b absent
        obtain ⟨kept,stored,spends,recent⟩ := throttle_spends rate absent past within
        rw [← own] at stored
        have most := spends.within
        obtain ⟨left,_,_,last,flows⟩ := run_spends rate later bounded stored
          (fun y member => UInt64.le_trans spends.past (ahead y member)) (UInt64.le_trans spends.past (until' x (by simp)))
          (by omega)
        have ends := Nat.mul_le_mul_left cfg.ratePps.toNat (UInt64.le_iff_toNat_le.mp last)
        have carried := Nat.mul_le_mul_left cfg.ratePps.toNat recent.le
        rw [Nat.mul_add] at carried
        rw [count,Nat.mul_add cfg.ratePps.toNat]
        omega

/-- Between any two packets of a train the throttle passes the burst and what the rate
gives in the time between them and one millisecond, and no bucket holds more than the burst. -/
theorem passed_within {start : Throttle} {before during : List Arrival} {first last : Arrival}
    (rate : 0 < cfg.ratePps) (burst : 1 ≤ cfg.burstPkts) (absent : start.lookup src = none)
    (order : InOrder (before ++ during)) (opens : during.head? = some first) (closes : during.getLast? = some last) :
    let earlier := run (arrive cfg) start before
    let done := run (arrive cfg) earlier.1 during
    (done.2.count src : ℚ) ≤ (cfg.burstPkts.toNat : ℚ) +
        (cfg.ratePps.toNat : ℚ) * ((last.now.toNat : ℚ) - (first.now.toNat : ℚ) + 1000000) / 1000000000 ∧
      ∀ b, done.1.lookup src = some b → b.tokensMilli.toNat ≤ 1000 * cfg.burstPkts.toNat := by
  have rate' : cfg.ratePps ≠ 0 := (UInt64.pos_iff_ne_zero.mp rate)
  obtain ⟨earlier,ordered,across⟩ := List.pairwise_append.mp order
  obtain ⟨rest,rfl⟩ := List.head?_eq_some_iff.mp opens
  obtain ⟨rest',ends⟩ := List.getLast?_eq_some_iff.mp closes
  have after : ∀ x ∈ first::rest, first.now ≤ x.now := by
    intro x member
    rcases List.mem_cons.mp member with rfl | inside
    · exact UInt64.le_refl _
    · exact (List.pairwise_cons.mp ordered).1 x inside
  have until' : ∀ x ∈ first::rest, x.now ≤ last.now := by
    intro x member
    rw [ends] at member ordered
    rcases List.mem_append.mp member with inside | single
    · exact (List.pairwise_append.mp ordered).2.2 x inside last (by simp)
    · exact List.mem_singleton.mp single ▸ UInt64.le_refl _
  have passes : first.now ≤ last.now := until' first (by simp)
  have held : Held cfg src (run (arrive cfg) start before).1 first.now := by
    refine run_held rate' burst earlier (fun _ _ => UInt64.zero_le) (fun x member => across x member first (by simp))
      UInt64.zero_le ?_
    intro b found
    exact absurd (absent.symm.trans found) (by simp)
  refine ⟨?_,fun b found => (run_held rate' burst ordered after until' passes held b found).1⟩
  have spent := window_spends rate' burst ordered after until' passes held
  have spent' : (1000000000 * (run (arrive cfg) (run (arrive cfg) start before).1 (first::rest)).2.count src +
      cfg.ratePps.toNat * first.now.toNat : ℚ) ≤
        1000000000 * cfg.burstPkts.toNat + cfg.ratePps.toNat * (last.now.toNat + 1000000) := by exact_mod_cast spent
  linarith

/-- At ten packets a second and a burst of one, of two packets a hair apart one passes,
and another after a tenth of a second. -/
theorem passed_within_tenth :
    let src : Addr6 := ⟨Vector.replicate 16 0⟩
    let at' (now : UInt64) : Arrival := ⟨∅,⟨true,some src⟩,now⟩
    let done := run (arrive ⟨10,1⟩) ∅ [at' 1,at' 2,at' 100000001]
    done.2.count src = 2 ∧ (done.2.count src : ℚ) ≤ (1 : ℚ) + 10 * (100000001 - 1 + 1000000) / 1000000000 := by
  intro src at' done
  have counted : done.2.count src = 2 := by decide
  have bound := (@passed_within ⟨10,1⟩ src ∅ [] _ (at' 1) (at' 100000001) (by decide) (by decide) (by decide)
    (show InOrder ([] ++ [at' 1,at' 2,at' 100000001]) by simp [InOrder,at']) rfl rfl).1
  refine ⟨counted,bound.trans_eq ?_⟩
  have times : (at' 1).now.toNat = 1 ∧ (at' 100000001).now.toNat = 100000001 := by decide
  have rate : (10 : UInt64).toNat = 10 := by decide
  rw [times.1,times.2,rate]
  norm_num

end Trains
end FipsShield.Guard
