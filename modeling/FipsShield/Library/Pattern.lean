import FipsShield.Library.Lines
import Mathlib.Data.List.TakeWhile
import Mathlib.Data.List.Infix

/-! Patterns as regular expressions have them: all the ways to read the front of a text,
each with the groups it captured and the text it left, and the search of a line. -/
namespace FipsShield
universe u

abbrev Match (α : Type u) := List (List α) × List α

abbrev Pattern (α : Type u) := List α → List (Match α)

namespace Pattern
variable {α : Type u}

/-- `[..]*`. -/
def many (inside : α → Bool) : Pattern α := fun input =>
  (List.range ((input.takeWhile inside).length + 1)).map fun n => ([],input.drop n)

/-- `[..]+`. -/
def more (inside : α → Bool) : Pattern α := fun input =>
  (List.range (input.takeWhile inside).length).map fun n => ([],input.drop (n + 1))

/-- `(?!..)`. -/
def notAhead (p : Pattern α) : Pattern α := fun input => if p input = [] then [([],input)] else []

def sequence : List (Pattern α) → Pattern α
  | [] => fun input => [([],input)]
  | p::ps => fun input => (p input).flatMap fun first =>
    (sequence ps first.2).map fun later => (first.1 ++ later.1,later.2)

def search (p : Pattern α) (line : List α) : List (Match α) := line.tails.flatMap p

theorem take_inside {inside : α → Bool} {input : List α} {n : Nat} (short : n ≤ (input.takeWhile inside).length) :
    ∀ u ∈ input.take n, inside u = true := by
  intro u member
  have split := List.takeWhile_append_dropWhile (p := inside) (l := input)
  rw [← split,List.take_append_of_le_length short] at member
  exact List.mem_takeWhile_imp (List.mem_of_mem_take member)

theorem length_inside {inside : α → Bool} {own rest : List α} (free : ∀ u ∈ own, inside u = true) :
    own.length ≤ ((own ++ rest).takeWhile inside).length := by
  rw [List.takeWhile_append_of_pos free,List.length_append]
  exact Nat.le_add_right _ _

theorem mem_many {inside : α → Bool} {input : List α} {m : Match α} :
    m ∈ many inside input ↔ m.1 = [] ∧ ∃ own, input = own ++ m.2 ∧ ∀ u ∈ own, inside u = true := by
  obtain ⟨caps,rest⟩ := m
  simp only [many,List.mem_map,List.mem_range,Prod.mk.injEq]
  constructor
  · rintro ⟨n,short,rfl,rfl⟩
    exact ⟨rfl,input.take n,(List.take_append_drop n input).symm,take_inside (Nat.lt_succ_iff.mp short)⟩
  · rintro ⟨rfl,own,rfl,free⟩
    exact ⟨own.length,Nat.lt_succ_iff.mpr (length_inside free),rfl,List.drop_left⟩

theorem mem_more {inside : α → Bool} {input : List α} {m : Match α} :
    m ∈ more inside input ↔ m.1 = [] ∧ ∃ own, own ≠ [] ∧ input = own ++ m.2 ∧ ∀ u ∈ own, inside u = true := by
  obtain ⟨caps,rest⟩ := m
  simp only [more,List.mem_map,List.mem_range,Prod.mk.injEq]
  constructor
  · rintro ⟨n,short,rfl,rfl⟩
    refine ⟨rfl,input.take (n + 1),?_,(List.take_append_drop _ input).symm,take_inside short⟩
    have filled := (List.takeWhile_prefix inside (l := input)).length_le
    rw [ne_eq,← List.length_eq_zero_iff,List.length_take]
    omega
  · rintro ⟨rfl,own,filled,rfl,free⟩
    have positive := List.length_pos_iff.mpr filled
    have short : own.length ≤ ((own ++ rest).takeWhile inside).length := length_inside free
    refine ⟨own.length - 1,by omega,rfl,?_⟩
    rw [Nat.sub_add_cancel positive]
    exact List.drop_left

theorem mem_notAhead {p : Pattern α} {input : List α} {m : Match α} :
    m ∈ notAhead p input ↔ m = ([],input) ∧ p input = [] := by
  simp only [notAhead]
  split_ifs with absent <;> simp [absent]

theorem mem_sequence_cons {p : Pattern α} {ps : List (Pattern α)} {input : List α} {m : Match α} :
    m ∈ sequence (p::ps) input ↔
      ∃ first ∈ p input, ∃ later ∈ sequence ps first.2, m = (first.1 ++ later.1,later.2) := by
  simp only [sequence,List.mem_flatMap,List.mem_map]
  constructor
  · rintro ⟨first,member,later,within,rfl⟩
    exact ⟨first,member,later,within,rfl⟩
  · rintro ⟨first,member,later,within,rfl⟩
    exact ⟨first,member,later,within,rfl⟩

theorem mem_search {p : Pattern α} {line : List α} {m : Match α} :
    m ∈ search p line ↔ ∃ before after, line = before ++ after ∧ m ∈ p after := by
  simp only [search,List.mem_flatMap,List.mem_tails]
  constructor
  · rintro ⟨after,⟨before,rfl⟩,member⟩
    exact ⟨before,after,rfl,member⟩
  · rintro ⟨before,after,rfl,member⟩
    exact ⟨after,List.suffix_append before after,member⟩

/-! ## Texts -/

variable [DecidableEq α]

def text (s : List α) : Pattern α := fun input => if s.isPrefixOf input then [([],input.drop s.length)] else []

/-- `(?:a|b|..)` of texts. -/
def oneOf (ss : List (List α)) : Pattern α := fun input => ss.flatMap fun s => text s input

theorem mem_text {s input : List α} {m : Match α} : m ∈ text s input ↔ m.1 = [] ∧ input = s ++ m.2 := by
  obtain ⟨caps,rest⟩ := m
  simp only [text]
  split_ifs with starts
  · obtain ⟨after,rfl⟩ := List.isPrefixOf_iff_prefix.mp starts
    simp [eq_comm]
  · refine iff_of_false (List.not_mem_nil) ?_
    rintro ⟨_,rfl⟩
    exact starts (List.isPrefixOf_iff_prefix.mpr (List.prefix_append s rest))

theorem mem_oneOf {ss : List (List α)} {input : List α} {m : Match α} :
    m ∈ oneOf ss input ↔ ∃ s ∈ ss, m.1 = [] ∧ input = s ++ m.2 := by
  simp only [oneOf,List.mem_flatMap,mem_text]

/-! ## Reading on -/

variable {ps : List (Pattern α)} {s rest : List α} {m : Match α}

theorem sequence_text : m ∈ sequence (text s::ps) (s ++ rest) ↔ m ∈ sequence ps rest := by
  rw [mem_sequence_cons]
  constructor
  · rintro ⟨first,read,later,member,rfl⟩
    obtain ⟨none,same⟩ := mem_text.mp read
    rw [none,List.append_cancel_left same]
    exact member
  · intro member
    exact ⟨([],rest),mem_text.mpr ⟨rfl,rfl⟩,m,member,rfl⟩

/-- Units are passed over up to one that they stop at, where the text that follows starts. -/
theorem sequence_until {p : Pattern α} {inside : α → Bool} {stop : α} {own tail : List α} (stops : inside stop = false)
    (reads : ∀ input, ∀ m ∈ p input, m.1 = [] ∧ ∃ own, input = own ++ m.2 ∧ ∀ u ∈ own, inside u = true)
    (free : ∀ u ∈ own, inside u = true) (read : ([],stop::tail) ∈ p (own ++ stop::tail)) :
    m ∈ sequence (p::text (stop::s)::ps) (own ++ stop::tail) ↔ m ∈ sequence (text (stop::s)::ps) (stop::tail) := by
  have absent {units : List α} (free : ∀ u ∈ units, inside u = true) : stop ∉ units := by
    intro member
    rw [free stop member] at stops
    contradiction
  rw [mem_sequence_cons]
  constructor
  · rintro ⟨first,read,later,member,rfl⟩
    obtain ⟨none,seen,same,free'⟩ := reads _ _ read
    obtain ⟨next,within,_⟩ := mem_sequence_cons.mp member
    have starts := (mem_text.mp within).2
    rw [starts] at same
    obtain ⟨_,after⟩ := Lines.split_unique (absent free) (absent free') same
    have left : first.2 = stop::tail := by rw [starts,after]; rfl
    rw [none,← left]
    exact member
  · intro member
    exact ⟨([],stop::tail),read,m,member,rfl⟩

variable {inside : α → Bool} {stop : α} {own tail : List α}

theorem sequence_many (stops : inside stop = false) (free : ∀ u ∈ own, inside u = true) :
    m ∈ sequence (many inside::text (stop::s)::ps) (own ++ stop::tail) ↔
      m ∈ sequence (text (stop::s)::ps) (stop::tail) :=
  sequence_until stops (fun _ _ read => mem_many.mp read) free (mem_many.mpr ⟨rfl,own,rfl,free⟩)

theorem sequence_more (stops : inside stop = false) (free : ∀ u ∈ own, inside u = true) (filled : own ≠ []) :
    m ∈ sequence (more inside::text (stop::s)::ps) (own ++ stop::tail) ↔
      m ∈ sequence (text (stop::s)::ps) (stop::tail) := by
  apply sequence_until stops _ free (mem_more.mpr ⟨rfl,own,filled,rfl,free⟩)
  intro input m read
  obtain ⟨none,seen,_,same,free'⟩ := mem_more.mp read
  exact ⟨none,seen,same,free'⟩

end Pattern
end FipsShield
