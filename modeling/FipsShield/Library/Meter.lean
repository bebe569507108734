import FipsShield.Library.Transducer

/-! A token bucket over the natural numbers that credits whole units of time: a greater rate,
a greater cap or a longer wait turns none away that was served. -/
namespace FipsShield
open Transducer

/-- What flows in over each unit of time, up to the cap, and what one request costs. -/
structure Meter where
  unit : Nat
  cost : Nat
  rate : Nat
  cap : Nat

namespace Meter

/-- What is left, and the time up to which it is credited. -/
structure Level where
  tokens : Nat
  since : Nat

def refill (m : Meter) (now : Nat) (level : Level) : Level :=
  let units := (now - level.since) / m.unit
  if units = 0 then level else ⟨min m.cap (level.tokens + units * m.rate),now⟩

def take (m : Meter) (level : Level) (now : Nat) : Level × List Nat :=
  if level.tokens < m.cost then (level,[]) else ({level with tokens := level.tokens - m.cost},[now])

/-- One request; the first is served whatever the cap is. -/
def serve (m : Meter) : Option Level → Nat → Option Level × List Nat
  | none, now => (some ⟨m.cap - m.cost,now⟩,[now])
  | some level, now =>
    let taken := m.take (m.refill now level) now
    (some taken.1,taken.2)

/-! ## A more generous meter -/

structure Generous (m m' : Meter) : Prop where
  unit : m'.unit = m.unit
  cost : m'.cost = m.cost
  rate : m.rate ≤ m'.rate
  cap : m.cap ≤ m'.cap

theorem Generous.refl (m : Meter) : Generous m m := ⟨rfl,rfl,Nat.le_refl _,Nat.le_refl _⟩

/-- After so many served the second level is no worse off than the first one after its own. -/
structure Ahead (cost n n' : Nat) (level level' : Level) : Prop where
  since : level'.since = level.since
  served : n ≤ n'
  tokens : level.tokens + cost * n ≤ level'.tokens + cost * n'

section Generous
variable {m m' : Meter} {n n' : Nat} {level level' : Level}

theorem Ahead.refill (ahead : Ahead m.cost n n' level level') (generous : Generous m m') (now : Nat) :
    Ahead m.cost n n' (m.refill now level) (m'.refill now level') := by
  obtain ⟨since,fewer,tokens⟩ := ahead
  obtain ⟨unit,_,rate,cap⟩ := generous
  have gains := Nat.mul_le_mul_left ((now - level.since) / m.unit) rate
  have costs := Nat.mul_le_mul_left m.cost fewer
  simp only [Meter.refill,since,unit]
  split_ifs
  · exact ⟨since,fewer,tokens⟩
  · exact ⟨rfl,fewer,by dsimp only; omega⟩

theorem Ahead.take (ahead : Ahead m.cost n n' level level') (cost : m'.cost = m.cost) (now : Nat) :
    Ahead m.cost (n + (m.take level now).2.length) (n' + (m'.take level' now).2.length)
      (m.take level now).1 (m'.take level' now).1 := by
  obtain ⟨since,fewer,tokens⟩ := ahead
  simp only [Meter.take,cost]
  split_ifs with short short' short'
  · exact ⟨since,fewer,tokens⟩
  · refine ⟨since,Nat.le_succ_of_le fewer,?_⟩
    simp only [List.length_nil,List.length_singleton,Nat.mul_add,Nat.mul_one]
    omega
  · have more : n < n' := by
      refine Nat.lt_of_not_le fun no => ?_
      have costs := Nat.mul_le_mul_left m.cost no
      omega
    refine ⟨since,more,?_⟩
    simp only [List.length_nil,List.length_singleton,Nat.mul_add,Nat.mul_one]
    omega
  · refine ⟨since,Nat.succ_le_succ fewer,?_⟩
    simp only [List.length_singleton,Nat.mul_add,Nat.mul_one]
    omega

theorem run_ahead (generous : Generous m m') (ahead : Ahead m.cost n n' level level') (times : List Nat) :
    n + (run m.serve (some level) times).2.length ≤ n' + (run m'.serve (some level') times).2.length := by
  induction times generalizing n n' level level' with
  | nil => exact ahead.served
  | cons now rest ih =>
    have next := ih ((ahead.refill generous now).take generous.cost now)
    rw [run_cons,run_cons,List.length_append,List.length_append,← Nat.add_assoc,← Nat.add_assoc]
    exact next

/-- A greater rate or cap serves at least as many. -/
theorem run_generous (generous : Generous m m') (account : Option Level) (times : List Nat) :
    (run m.serve account times).2.length ≤ (run m'.serve account times).2.length := by
  cases account with
  | some level =>
    have more := run_ahead generous (⟨rfl,Nat.le_refl _,Nat.le_refl _⟩ : Ahead m.cost 0 0 level level) times
    omega
  | none =>
    cases times with
    | nil => exact Nat.le_refl _
    | cons now rest =>
      have room := Nat.sub_le_sub_right generous.cap m.cost
      have started : Ahead m.cost 1 1 ⟨m.cap - m.cost,now⟩ ⟨m'.cap - m'.cost,now⟩ := by
        refine ⟨rfl,Nat.le_refl _,?_⟩
        rw [generous.cost]
        exact Nat.add_le_add_right room _
      rw [run_cons,run_cons,List.length_append,List.length_append]
      exact run_ahead generous started rest

end Generous

/-! ## A longer wait -/

section Wait
variable {m : Meter} {level level' : Level}

theorem refill_due {now : Nat} (due : (now - level.since) / m.unit ≠ 0) :
    m.refill now level = ⟨min m.cap (level.tokens + (now - level.since) / m.unit * m.rate),now⟩ := if_neg due

/-- A request that is served is served as well after a longer wait. -/
theorem serve_longer (room : m.cost ≤ m.cap) (same : level'.tokens = level.tokens) (longer : level'.since ≤ level.since)
    (now : Nat) : (m.serve (some level) now).2.length ≤ (m.serve (some level') now).2.length := by
  have units : (now - level.since) / m.unit ≤ (now - level'.since) / m.unit :=
    Nat.div_le_div_right (Nat.sub_le_sub_left longer now)
  have gains := Nat.mul_le_mul_right m.rate units
  have most : (m.refill now level).tokens ≤ level.tokens + (now - level.since) / m.unit * m.rate := by
    simp only [Meter.refill]
    split_ifs
    · exact Nat.le_add_right _ _
    · exact Nat.min_le_right _ _
  have enough : m.cost ≤ (m.refill now level).tokens → m.cost ≤ (m.refill now level').tokens := by
    intro served
    by_cases early : (now - level'.since) / m.unit = 0
    · have early' : (now - level.since) / m.unit = 0 := Nat.le_zero.mp (early ▸ units)
      simp only [Meter.refill,early,early',if_true] at served ⊢
      omega
    · rw [refill_due early]
      dsimp only
      omega
  simp only [serve,Meter.take]
  split_ifs with short short' short'
  · exact Nat.le_refl _
  · exact Nat.zero_le _
  · exact absurd (enough (Nat.not_lt.mp short)) (Nat.not_le.mpr short')
  · exact Nat.le_refl _

/-- After a wait of a unit or more no fewer are served of a whole train where the wait was longer. -/
theorem run_longer {now : Nat} (due : (now - level.since) / m.unit ≠ 0) (same : level'.tokens = level.tokens)
    (longer : level'.since ≤ level.since) (rest : List Nat) :
    (run m.serve (some level) (now::rest)).2.length ≤ (run m.serve (some level') (now::rest)).2.length := by
  have units : (now - level.since) / m.unit ≤ (now - level'.since) / m.unit :=
    Nat.div_le_div_right (Nat.sub_le_sub_left longer now)
  have gains := Nat.mul_le_mul_right m.rate units
  have due' : (now - level'.since) / m.unit ≠ 0 := fun early => due (Nat.le_zero.mp (early ▸ units))
  have ahead : Ahead m.cost 0 0 (m.refill now level) (m.refill now level') := by
    rw [refill_due due,refill_due due']
    exact ⟨rfl,Nat.le_refl _,by dsimp only; omega⟩
  have after := run_ahead (Generous.refl m) (ahead.take rfl now) rest
  rw [Nat.zero_add,Nat.zero_add] at after
  rw [run_cons,run_cons,List.length_append,List.length_append]
  exact after

end Wait
end Meter
end FipsShield
