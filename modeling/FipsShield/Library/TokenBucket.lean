import Mathlib.Algebra.Order.Field.Basic
import Mathlib.Data.List.Basic
import Mathlib.Order.Interval.Finset.Nat
import Mathlib.Tactic.Linarith
import Mathlib.Tactic.Ring

/-! Token buckets over an ordered field: how many takes succeed between two times,
whatever the clock does, and exactly which calls succeed. -/
namespace FipsShield
universe u v w

structure TokenBucket (α : Type u) where
  rate : α
  burst : α
  tokens : α
  time : α

namespace TokenBucket

theorem stretch_concat {α : Type u} {times before during after : List α} {now : α} (parted : times ++ [now] = before ++ during ++ after) :
    (∃ rest, times = before ++ during ++ rest) ∨ after = [] ∧ (during = [] ∨ ∃ earlier,
      during = earlier ++ [now] ∧ times = before ++ earlier) := by
  rcases List.eq_nil_or_concat after with none | ⟨rest,final,same⟩
  · rw [none,List.append_nil] at parted
    rcases List.eq_nil_or_concat during with nothing | ⟨earlier,final,same⟩
    · exact Or.inr ⟨none,Or.inl nothing⟩
    · rw [same,List.concat_eq_append,← List.append_assoc] at parted
      obtain ⟨times,last⟩ := List.append_inj' parted rfl
      refine Or.inr ⟨none,Or.inr ⟨earlier,?_,times⟩⟩
      rw [same,List.concat_eq_append,last]
  · rw [same,List.concat_eq_append,← List.append_assoc] at parted
    exact Or.inl ⟨rest,(List.append_inj' parted rfl).1⟩

variable {α : Type u} [Field α] [LinearOrder α]

def refilled (b : TokenBucket α) (now : α) : α := min b.burst (b.tokens + (now - b.time) * b.rate)

def take (b : TokenBucket α) (now : α) : Bool × TokenBucket α :=
  if b.refilled now < 1 then (false,{b with tokens := b.refilled now,time := now})
  else (true,{b with tokens := b.refilled now - 1,time := now})

/-- Any stretch of the times is no longer than the burst and what flows in meanwhile. -/
def Paced (rate burst : α) (times : List α) : Prop :=
  ∀ before during after first last, times = before ++ during ++ after → during.head? = some first →
    during.getLast? = some last → (during.length : α) ≤ burst + (last - first) * rate

/-- The tokens taken at these times are missing from the bucket. -/
structure Metered (b : TokenBucket α) (times : List α) : Prop where
  paced : Paced b.rate b.burst times
  missing : ∀ before during first, times = before ++ during → during.head? = some first →
    b.tokens + during.length ≤ b.burst + (b.time - first) * b.rate

variable {b : TokenBucket α} {times : List α}

theorem Metered.nil : Metered b [] := by
  refine ⟨?_,?_⟩
  · intro before during after first last parted head _
    simp only [List.nil_eq,List.append_eq_nil_iff] at parted
    simp [parted.1.2] at head
  · intro before during first parted head
    simp only [List.nil_eq,List.append_eq_nil_iff] at parted
    simp [parted.2] at head

theorem take_rate (b : TokenBucket α) (now : α) : (b.take now).2.rate = b.rate := by
  unfold take
  split_ifs <;> rfl

theorem take_burst (b : TokenBucket α) (now : α) : (b.take now).2.burst = b.burst := by
  unfold take
  split_ifs <;> rfl

theorem take_time (b : TokenBucket α) (now : α) : (b.take now).2.time = now := by
  unfold take
  split_ifs <;> rfl

/-! ## Calls at the times of a sequence -/

section Calls
variable {S : Type v} {T : Type w} (call : S → T → Bool × S) (s : S) (t : Nat → T)

/-- The state before call `n`. -/
def state : Nat → S
  | 0 => s
  | n + 1 => (call (state n) (t n)).2

def answer (n : Nat) : Bool := (call (state call s t n) (t n)).1

/-- How many of the calls `i`, …, `n - 1` succeed. -/
def granted (i n : Nat) : Nat := ((Finset.Ico i n).filter fun k => answer call s t k).card

variable {call s t}

/-- Two systems in a relation that every call keeps give the same answers. -/
theorem answer_related {S' : Type v} {T' : Type w} {call' : S' → T' → Bool × S'} {s' : S'} {t' : Nat → T'}
    {R : S → S' → Prop} (starts : R s s') (step : ∀ n s s', R s s' →
      (call s (t n)).1 = (call' s' (t' n)).1 ∧ R (call s (t n)).2 (call' s' (t' n)).2) (n : Nat) :
    answer call s t n = answer call' s' t' n := by
  have kept : ∀ n, R (state call s t n) (state call' s' t' n) := by
    intro n
    induction n with
    | zero => exact starts
    | succ n ih => exact (step n _ _ ih).2
  exact (step n _ _ (kept n)).1

theorem granted_congr {S' : Type v} {T' : Type w} {call' : S' → T' → Bool × S'} {s' : S'} {t' : Nat → T'}
    (same : ∀ n, answer call s t n = answer call' s' t' n) (i n : Nat) :
    granted call s t i n = granted call' s' t' i n := by
  simp only [granted,same]

theorem granted_self (n : Nat) : granted call s t n n = 0 := by simp [granted]

theorem granted_succ {i n : Nat} (within : i ≤ n) : granted call s t i (n + 1) =
    granted call s t i n + if answer call s t n = true then 1 else 0 := by
  rw [granted,Nat.Ico_succ_right_eq_insert_Ico within,Finset.filter_insert]
  split_ifs
  · rw [Finset.card_insert_of_notMem (by simp),granted]
  · rw [granted,Nat.add_zero]

end Calls

/-- The tokens that call `n` finds. -/
def level (b : TokenBucket α) (t : Nat → α) (n : Nat) : α := (state take b t n).refilled (t n)

theorem state_fixed (b : TokenBucket α) (t : Nat → α) (n : Nat) :
    (state take b t n).rate = b.rate ∧ (state take b t n).burst = b.burst := by
  induction n with
  | zero => exact ⟨rfl,rfl⟩
  | succ n ih => exact ⟨(take_rate _ _).trans ih.1,(take_burst _ _).trans ih.2⟩

theorem answer_level (b : TokenBucket α) (t : Nat → α) (n : Nat) : answer take b t n = true ↔ 1 ≤ b.level t n := by
  rw [answer,take,level,← not_lt]
  split_ifs with short <;> simp [short]

theorem level_succ (b : TokenBucket α) (t : Nat → α) (n : Nat) : b.level t (n + 1) = min b.burst
    (b.level t n - (if answer take b t n = true then 1 else 0) + (t (n + 1) - t n) * b.rate) := by
  have left : (state take b t (n + 1)).tokens = b.level t n - if answer take b t n = true then 1 else 0 := by
    rw [state,answer,take,level]
    split_ifs <;> simp_all
  have time : (state take b t (n + 1)).time = t n := take_time _ _
  obtain ⟨rate,burst⟩ := state_fixed b t (n + 1)
  rw [level,refilled,left,time,rate,burst]

/-! ## Bounds and exact answers -/

variable [IsStrictOrderedRing α]

theorem take_tokens_le (b : TokenBucket α) (now : α) :
    (b.take now).2.tokens ≤ b.tokens + (now - b.time) * b.rate := by
  have clipped : b.refilled now ≤ b.tokens + (now - b.time) * b.rate := min_le_right _ _
  unfold take
  split_ifs
  · exact clipped
  · have one : (0 : α) ≤ 1 := zero_le_one
    exact (sub_le_self _ one).trans clipped

theorem Metered.spend (metered : Metered b times) (now : α) : Metered (b.take now).2 times := by
  refine ⟨?_,?_⟩
  · rw [take_rate,take_burst]
    exact metered.paced
  · intro before during first parted head
    have owed := metered.missing before during first parted head
    have fewer := take_tokens_le b now
    rw [take_rate,take_burst,take_time]
    have flows : (b.time - first) * b.rate + (now - b.time) * b.rate = (now - first) * b.rate := by ring
    linarith

theorem take_success {now : α} (taken : (b.take now).1 = true) :
    0 ≤ (b.take now).2.tokens ∧ (b.take now).2.tokens + 1 ≤ b.burst ∧
      (b.take now).2.tokens + 1 ≤ b.tokens + (now - b.time) * b.rate := by
  have full : b.refilled now ≤ b.burst := min_le_left _ _
  have clipped : b.refilled now ≤ b.tokens + (now - b.time) * b.rate := min_le_right _ _
  unfold take at taken ⊢
  split_ifs at taken ⊢ with short
  simp only [sub_add_cancel]
  exact ⟨sub_nonneg.mpr (le_of_not_gt short),full,clipped⟩

theorem Metered.take (metered : Metered b times) {now : α} (taken : (b.take now).1 = true) :
    Metered (b.take now).2 (times ++ [now]) := by
  obtain ⟨left,full,flows⟩ := take_success taken
  have owed : ∀ before during first, times ++ [now] = before ++ during → during.head? = some first →
      (b.take now).2.tokens + during.length ≤ b.burst + (now - first) * b.rate := by
    intro before during first parted head
    have whole : times ++ [now] = before ++ during ++ [] := by rw [parted,List.append_nil]
    rcases stretch_concat whole with ⟨rest,same⟩ | ⟨_,nothing | ⟨earlier,rfl,same⟩⟩
    · have sizes := congrArg List.length (parted.symm.trans (congrArg (· ++ [now]) same))
      simp at sizes
    · simp [nothing] at head
    · cases earlier with
      | nil =>
        cases head
        simpa using full
      | cons start others =>
        have started : start = first := by simpa using head
        have before_now := metered.missing before (start::others) first same (by simp [started])
        have sum : (b.time - first) * b.rate + (now - b.time) * b.rate = (now - first) * b.rate := by ring
        rw [List.length_append,List.length_singleton,Nat.cast_add,Nat.cast_one]
        linarith
  refine ⟨?_,?_⟩
  · rw [take_rate,take_burst]
    intro before during after first last parted head final
    rcases stretch_concat parted with ⟨rest,same⟩ | ⟨none,_⟩
    · exact metered.paced before during rest first last same head final
    · rw [none,List.append_nil] at parted
      have bound := owed before during first parted head
      have ends : last = now := by
        have tail := congrArg List.getLast? parted
        simpa [List.getLast?_append,final] using tail.symm
      rw [ends]
      linarith
  · rw [take_rate,take_burst,take_time]
    exact owed

/-- The tokens are the least of what any earlier call can have left, had it found the bucket
full. -/
theorem le_level_iff {b : TokenBucket α} {t : Nat → α} (full : b.tokens = b.burst) (nonneg : 0 ≤ b.rate) (begun : b.time ≤ t 0)
    (n : Nat) (x : α) : x ≤ b.level t n ↔
      ∀ i ≤ n, x + granted take b t i n ≤ b.burst + (t n - t i) * b.rate := by
  induction n generalizing x with
  | zero =>
    have flows : 0 ≤ (t 0 - b.time) * b.rate := mul_nonneg (sub_nonneg.mpr begun) nonneg
    have first : b.level t 0 = b.burst := min_eq_left (by rw [state,full]; linarith)
    simp [first,granted_self]
  | succ n ih =>
    have carried : ∀ i ≤ n,
        (x + (if answer take b t n = true then 1 else 0) - (t (n + 1) - t n) * b.rate + granted take b t i n ≤
          b.burst + (t n - t i) * b.rate ↔
        x + granted take b t i (n + 1) ≤ b.burst + (t (n + 1) - t i) * b.rate) := by
      intro i within
      have flows : (t (n + 1) - t i) * b.rate = (t n - t i) * b.rate + (t (n + 1) - t n) * b.rate := by ring
      rw [granted_succ within,flows]
      push_cast
      constructor <;> intro bound <;> linarith
    have earlier : x ≤ b.level t n - (if answer take b t n = true then 1 else 0) + (t (n + 1) - t n) * b.rate ↔
        ∀ i ≤ n, x + granted take b t i (n + 1) ≤ b.burst + (t (n + 1) - t i) * b.rate := by
      rw [← forall₂_congr carried,← ih]
      constructor <;> intro bound <;> linarith
    have now : x ≤ b.burst ↔ x + granted take b t (n + 1) (n + 1) ≤ b.burst + (t (n + 1) - t (n + 1)) * b.rate := by
      simp [granted_self]
    rw [level_succ,le_min_iff,earlier,now]
    constructor
    · rintro ⟨last,before⟩ i within
      rcases Nat.le_or_eq_of_le_succ within with earlier | rfl
      · exact before i earlier
      · exact last
    · exact fun all => ⟨all _ le_rfl,fun i within => all i (by omega)⟩

/-- A call on a bucket that was full succeeds exactly where, counted from any call before it on,
the calls that succeed and itself are no more than the burst and what flows in meanwhile. -/
theorem answer_iff {b : TokenBucket α} {t : Nat → α} (full : b.tokens = b.burst) (nonneg : 0 ≤ b.rate) (begun : b.time ≤ t 0)
    (n : Nat) : answer take b t n = true ↔
      ∀ i ≤ n, (granted take b t i n : α) + 1 ≤ b.burst + (t n - t i) * b.rate := by
  rw [answer_level,le_level_iff full nonneg begun]
  exact forall₂_congr fun i _ => by rw [add_comm]

end TokenBucket
end FipsShield
