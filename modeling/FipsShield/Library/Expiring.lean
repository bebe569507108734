import Mathlib.Data.List.Nodup
import Mathlib.Data.List.Induction
import Mathlib.Order.Basic

/-! A store whose values lapse: each write drops what has lapsed by then, replaces the
value of its key, or removes it. What stands at a later time is what was written last. -/
namespace FipsShield.Expiring
universe u v w
variable {K : Type u} {V : Type v} {T : Type w} [DecidableEq K]

/-- A write of a key, at a time; without a value it removes the key. -/
structure Write (K : Type u) (V : Type v) (T : Type w) where
  key : K
  value : Option V
  time : T

variable (stands : T → V → Bool)

def write (entries : List (K × V)) (w : Write K V T) : List (K × V) :=
  ((entries.filter fun entry => stands w.time entry.2).filter fun entry => entry.1 ≠ w.key) ++
    (w.value.map (Prod.mk w.key)).toList

def store (writes : List (Write K V T)) : List (K × V) := writes.foldl (write stands) []

def last (writes : List (Write K V T)) (key : K) : Option (Write K V T) := writes.reverse.find? fun w => w.key = key

theorem store_append (writes : List (Write K V T)) (w : Write K V T) :
    store stands (writes ++ [w]) = write stands (store stands writes) w := by
  simp [store]

theorem last_append (writes : List (Write K V T)) (w : Write K V T) (key : K) :
    last (writes ++ [w]) key = if w.key = key then some w else last writes key := by
  simp only [last,List.reverse_append,List.reverse_singleton,List.singleton_append,List.find?_cons]
  split <;> simp_all

theorem store_nodup (writes : List (Write K V T)) : ((store stands writes).map Prod.fst).Nodup := by
  induction writes using List.reverseRecOn with
  | nil => simp [store]
  | append_singleton before w ih =>
    rw [store_append,write,List.map_append]
    have kept := ((List.filter_sublist (p := fun entry : K × V => decide (entry.1 ≠ w.key))).trans
      (List.filter_sublist (p := fun entry : K × V => stands w.time entry.2) (l := store stands before))).map Prod.fst
    apply List.Nodup.append (ih.sublist kept)
    · cases w.value <;> simp
    · intro key old new
      obtain ⟨entry,within,rfl⟩ := List.mem_map.mp old
      have other : entry.1 ≠ w.key := by simpa using (List.mem_filter.mp within).2
      cases value : w.value with
      | none => simp [value] at new
      | some v =>
        simp only [value,Option.map_some,Option.toList_some,List.map_cons,List.map_nil,List.mem_singleton] at new
        exact other new

theorem store_last {writes : List (Write K V T)} {key : K} {v : V} (within : (key,v) ∈ store stands writes) :
    ∃ w, last writes key = some w ∧ w.value = some v := by
  induction writes using List.reverseRecOn with
  | nil => simp [store] at within
  | append_singleton before w ih =>
    rw [store_append,write,List.mem_append] at within
    rw [last_append]
    rcases within with old | new
    · obtain ⟨earlier,other⟩ := List.mem_filter.mp old
      have apart : ¬ w.key = key := by simpa using Ne.symm (of_decide_eq_true other)
      rw [if_neg apart]
      exact ih (List.mem_filter.mp earlier).1
    · cases value : w.value with
      | none => simp [value] at new
      | some x =>
        simp only [value,Option.map_some,Option.toList_some,List.mem_singleton,Prod.mk.injEq] at new
        rw [if_pos new.1.symm]
        exact ⟨w,rfl,by rw [value,new.2]⟩

variable {stands} [Preorder T]
  (lapses : ∀ now later v, now ≤ later → stands later v = true → stands now v = true)
include lapses

theorem last_store {writes : List (Write K V T)} {now : T} (past : ∀ w ∈ writes, w.time ≤ now) {key : K}
    {w : Write K V T} {v : V} (found : last writes key = some w) (value : w.value = some v)
    (standing : stands now v = true) : (key,v) ∈ store stands writes := by
  induction writes using List.reverseRecOn with
  | nil => simp [last] at found
  | append_singleton before x ih =>
    rw [last_append] at found
    rw [store_append,write,List.mem_append]
    split_ifs at found with own
    · obtain rfl := Option.some.inj found
      exact Or.inr (by simp [value,own])
    · have earlier := ih (fun w member => past w (by simp [member])) found
      have other : key ≠ x.key := Ne.symm own
      refine Or.inl (List.mem_filter.mpr ⟨List.mem_filter.mpr ⟨earlier,?_⟩,by simpa using other⟩)
      exact lapses _ _ v (past x (by simp)) standing

/-- A key has a standing entry exactly when its last write gave it a value that stands. -/
theorem stored_iff {writes : List (Write K V T)} {now : T} (past : ∀ w ∈ writes, w.time ≤ now) (key : K) :
    (∃ v, (key,v) ∈ store stands writes ∧ stands now v = true) ↔
      ∃ w v, last writes key = some w ∧ w.value = some v ∧ stands now v = true := by
  constructor
  · rintro ⟨v,within,standing⟩
    obtain ⟨w,found,value⟩ := store_last stands within
    exact ⟨w,v,found,value,standing⟩
  · rintro ⟨w,v,found,value,standing⟩
    exact ⟨v,last_store lapses past found value standing,standing⟩

end FipsShield.Expiring
