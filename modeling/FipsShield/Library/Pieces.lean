import Mathlib.Data.List.Basic

/-! Lines that are read in pieces of bounded length: each read goes through the end of a line, or
stops at the bound before. -/
namespace FipsShield.Pieces
universe u
variable {α : Type u}

/-- A list cut after every `n` units. -/
def pieces (n : Nat) (l : List α) : List (List α) :=
  if n = 0 ∨ l = [] then [] else l.take n::pieces n (l.drop n)
termination_by l.length
decreasing_by
  next filled =>
    rw [not_or] at filled
    have some := List.length_pos_iff.mpr filled.2
    rw [List.length_drop]
    omega

variable [DecidableEq α]

/-- The first line, with its end; all there is where it has none. -/
def through (stop : α) : List α → List α
  | [] => []
  | a::b => if a = stop then [a] else a::through stop b

theorem through_starts (stop : α) (b : List α) : through stop b <+: b := by
  induction b with
  | nil => exact List.prefix_rfl
  | cons a b ih =>
    rw [through]
    split_ifs
    · exact ⟨b,rfl⟩
    · exact List.cons_prefix_cons.mpr ⟨rfl,ih⟩

theorem through_filled (stop : α) {b : List α} (filled : b ≠ []) : through stop b ≠ [] := by
  obtain ⟨a,rest,rfl⟩ := List.exists_cons_of_ne_nil filled
  rw [through]
  split_ifs <;> simp

theorem through_line {stop : α} {a : List α} (free : stop ∉ a) (rest : List α) : through stop (a ++ stop::rest) = a ++ [stop] := by
  induction a with
  | nil => exact if_pos rfl
  | cons u a ih =>
    rw [List.mem_cons,not_or] at free
    rw [List.cons_append,through,if_neg (Ne.symm free.1),ih free.2,List.cons_append]

/-- A line that has its end. -/
theorem through_ends {stop : α} {b : List α} (complete : (through stop b).getLast? = some stop) :
    ∃ a rest, stop ∉ a ∧ b = a ++ stop::rest ∧ through stop b = a ++ [stop] := by
  have member : stop ∈ b := (through_starts stop b).subset (List.mem_of_getLast? complete)
  obtain ⟨a,rest,rfl,free⟩ := List.eq_append_cons_of_mem member
  exact ⟨a,rest,free,rfl,through_line free rest⟩

theorem through_take (stop : α) (b : List α) (n : Nat) : through stop (b.take n) = (through stop b).take n := by
  induction b generalizing n with
  | nil => simp [through]
  | cons a b ih =>
    cases n with
    | zero => simp [through]
    | succ n =>
      rw [List.take_succ_cons,through,through,ih]
      split_ifs <;> simp

/-- A line that is read in part goes on where the part ends. -/
theorem through_drop (stop : α) {b : List α} {n : Nat} (inside : n < (through stop b).length) :
    through stop (b.drop n) = (through stop b).drop n := by
  induction b generalizing n with
  | nil => simp [through]
  | cons a b ih =>
    cases n with
    | zero => rfl
    | succ n =>
      rw [through] at inside ⊢
      split_ifs at inside ⊢ with ends
      · simp at inside
      · rw [List.drop_succ_cons,List.drop_succ_cons,ih (by simpa using inside)]

/-- What reads of at most `n` units return, up to the end of the stream. -/
def reads (stop : α) (n : Nat) (b : List α) : List (List α) :=
  if n = 0 ∨ b = [] then []
  else through stop (b.take n)::reads stop n (b.drop (through stop (b.take n)).length)
termination_by b.length
decreasing_by
  next filled =>
    rw [not_or] at filled
    have some := List.length_pos_iff.mpr filled.2
    have read : b.take n ≠ [] := by simp [filled]
    have more := List.length_pos_iff.mpr (through_filled stop read)
    rw [List.length_drop]
    omega

section Reads
variable {stop : α} {n : Nat} (positive : 0 < n)
include positive

omit [DecidableEq α] in
theorem pieces_cons {l : List α} (filled : l ≠ []) : pieces n l = l.take n::pieces n (l.drop n) := by
  rw [pieces,if_neg (by simp [filled]; omega)]

theorem reads_cons {b : List α} (filled : b ≠ []) : reads stop n b =
    (through stop b).take n::reads stop n (b.drop ((through stop b).take n).length) := by
  rw [reads,if_neg (by simp [filled]; omega),through_take]

omit [DecidableEq α] in
theorem pieces_flatten (l : List α) : (pieces n l).flatten = l := by
  induction size : l.length using Nat.strongRecOn generalizing l with
  | ind k ih =>
    rcases eq_or_ne l [] with rfl | filled
    · simp [pieces]
    have some := List.length_pos_iff.mpr filled
    rw [pieces_cons positive filled,List.flatten_cons,ih _ (by rw [List.length_drop]; omega) _ rfl,List.take_append_drop]

omit [DecidableEq α] in
theorem pieces_short {l : List α} (filled : l ≠ []) (short : l.length ≤ n) : pieces n l = [l] := by
  rw [pieces_cons positive filled,List.take_of_length_le short,List.drop_eq_nil_of_le short,pieces,if_pos (Or.inr rfl)]

omit [DecidableEq α] in
/-- Every piece but the last one is of the length of the bound. -/
theorem pieces_dropLast {l piece : List α} (member : piece ∈ (pieces n l).dropLast) : piece.length = n := by
  induction size : l.length using Nat.strongRecOn generalizing l with
  | ind k ih =>
    rcases eq_or_ne l [] with rfl | filled
    · simp [pieces] at member
    have some := List.length_pos_iff.mpr filled
    rw [pieces_cons positive filled] at member
    rcases eq_or_ne (l.drop n) [] with none | more
    · rw [none,pieces,if_pos (Or.inr rfl)] at member
      simp at member
    · have others : pieces n (l.drop n) ≠ [] := by
        rw [pieces_cons positive more]
        exact List.cons_ne_nil _ _
      rw [List.dropLast_cons_of_ne_nil others,List.mem_cons] at member
      have long : n < l.length := by simpa using more
      rcases member with rfl | later
      · rw [List.length_take]
        omega
      · exact ih _ (by rw [List.length_drop]; omega) later rfl

theorem reads_filled {b piece : List α} (member : piece ∈ reads stop n b) : piece ≠ [] := by
  induction size : b.length using Nat.strongRecOn generalizing b with
  | ind k ih =>
    rcases eq_or_ne b [] with rfl | filled
    · simp [reads] at member
    have first : (through stop b).take n ≠ [] := by
      simp [through_filled stop filled]
      omega
    have more := List.length_pos_iff.mpr first
    have some := List.length_pos_iff.mpr filled
    rw [reads_cons positive filled,List.mem_cons] at member
    rcases member with rfl | later
    · exact first
    · exact ih _ (by rw [List.length_drop]; omega) later rfl

/-- The reads of a stream begin with the pieces of its first line. -/
theorem reads_through (b : List α) :
    reads stop n b = pieces n (through stop b) ++ reads stop n (b.drop (through stop b).length) := by
  induction size : b.length using Nat.strongRecOn generalizing b with
  | ind k ih =>
    rcases eq_or_ne b [] with rfl | filled
    · simp [reads,pieces,through]
    have line := through_filled stop filled
    have some := List.length_pos_iff.mpr filled
    rw [reads_cons positive filled,pieces_cons positive line,List.cons_append]
    congr 1
    by_cases inside : n < (through stop b).length
    · have cut : ((through stop b).take n).length = n := by
        rw [List.length_take]
        omega
      have later : n + ((through stop b).drop n).length = (through stop b).length := by
        rw [List.length_drop]
        omega
      rw [cut,ih _ (by rw [List.length_drop]; omega) _ rfl,through_drop stop inside,List.drop_drop,later]
    · have whole : (through stop b).take n = through stop b := List.take_of_length_le (by omega)
      have none : (through stop b).drop n = [] := List.drop_eq_nil_of_le (by omega)
      rw [whole,none,pieces,if_pos (Or.inr rfl),List.nil_append]

theorem reads_flatten (b : List α) : (reads stop n b).flatten = b := by
  induction size : b.length using Nat.strongRecOn generalizing b with
  | ind k ih =>
    rcases eq_or_ne b [] with rfl | filled
    · simp [reads]
    have some := List.length_pos_iff.mpr filled
    have more := List.length_pos_iff.mpr (through_filled stop filled)
    rw [reads_through positive,List.flatten_append,pieces_flatten positive,ih _ (by rw [List.length_drop]; omega) _ rfl]
    exact List.prefix_iff_eq_append.mp (through_starts stop b)

end Reads

omit [DecidableEq α] in
/-- Lists of filled parts that begin one list and leave as much of it are the same. -/
theorem parts_unique {a b c d : List (List α)} (same : a ++ b = c ++ d) (filled : ∀ part ∈ a ++ b, part ≠ [])
    (left : b.flatten.length = d.flatten.length) : a = c := by
  have nothing {more rest : List (List α)} (filled : ∀ part ∈ more, part ≠ [])
      (left : (more ++ rest).flatten.length = rest.flatten.length) : more = [] := by
    rw [List.flatten_append,List.length_append] at left
    have empty : more.flatten = [] := List.eq_nil_of_length_eq_zero (by omega)
    refine List.eq_nil_iff_forall_not_mem.mpr fun part member => ?_
    exact filled part member (List.flatten_eq_nil_iff.mp empty part member)
  rcases List.append_eq_append_iff.mp same with ⟨more,rfl,rfl⟩ | ⟨more,rfl,rfl⟩
  · have none := nothing (fun part member => filled part (by simp [member])) left
    rw [none,List.append_nil]
  · have none := nothing (fun part member => filled part (by simp [member])) left.symm
    rw [none,List.append_nil]

end FipsShield.Pieces
