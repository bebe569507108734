import FipsShield.Config.Profiles

/-! The end of a log file, as the dashboard reads it (`tail` in `ui/src/collect.rs`). -/
namespace FipsShield.Ui
open Text Lines Banlist Config

abbrev fromUtf8Lossy (b : Bytes) : Str := Text.toString b

def tail (file : Bytes) (n maxBytes : Nat) : List Str :=
  let want := min maxBytes file.length
  let lines := rustLines (fromUtf8Lossy (file.drop (file.length - want)))
  -- The first line is probably a fragment, unless the window covers the whole file.
  let lines := if want < file.length ∧ lines ≠ [] then lines.tail else lines
  lines.drop (lines.length - n)

/-! ## Lines of bytes and lines of text -/

/-- A text divides at an ASCII character where its bytes do. -/
theorem splitOnP_toString (a : UInt8) (ascii : a < 0x80) (b : Bytes) :
    (Text.toString b).splitOnP (· == UInt16.ofNat a.toNat) = (b.splitOnP (· == a)).map Text.toString := by
  by_cases member : a ∈ b
  · obtain ⟨front,rest,rfl,free⟩ := List.eq_append_cons_of_mem member
    have shorter : rest.length < (front ++ a::rest).length := by
      rw [List.length_append,List.length_cons]
      omega
    have parts : (front ++ a::rest).splitOnP (· == a) = front.splitOnP (· == a) ++ rest.splitOnP (· == a) :=
      List.splitOnP_append_cons front rest (beq_self_eq_true a)
    have texts : (Text.toString front ++ UInt16.ofNat a.toNat::Text.toString rest).splitOnP (· == UInt16.ofNat a.toNat) =
        (Text.toString front).splitOnP (· == UInt16.ofNat a.toNat) ++
          (Text.toString rest).splitOnP (· == UInt16.ofNat a.toNat) :=
      List.splitOnP_append_cons _ _ (beq_self_eq_true _)
    rw [toString_append_ascii a ascii,parts,texts,splitOnP_toString a ascii rest,List.map_append,
      List.splitOnP_eq_singleton (unended free),
      List.splitOnP_eq_singleton (unended ((mem_toString_ascii a ascii front).not.mpr free)),List.map_singleton]
  · rw [List.splitOnP_eq_singleton (unended member),
      List.splitOnP_eq_singleton (unended ((mem_toString_ascii a ascii b).not.mpr member)),List.map_singleton]
termination_by b.length

def lineText (line : Bytes) : Str :=
  if line.getLast? = some 0x0A then unreturned (Text.toString line.dropLast) else Text.toString line

theorem rustLines_toString (b : Bytes) : rustLines (fromUtf8Lossy b) = (ended 0x0A b).map lineText := by
  have parts : (Text.toString b).splitOnP newline = (b.splitOnP (· == 0x0A)).map Text.toString :=
    splitOnP_toString 0x0A (by decide) b
  rw [fromUtf8Lossy,rustLines,ended,parts,List.map_append,List.map_map,← List.map_dropLast,List.map_map,List.getLast?_map]
  congr 1
  · refine List.map_congr_left fun part _ => ?_
    simp [lineText]
  · cases final : (b.splitOnP (· == (0x0A : UInt8))).getLast? with
    | none => rfl
    | some part =>
      have free := splitOnP_free b part (List.mem_of_getLast? final)
      have open' : part.getLast? ≠ some 0x0A := fun last => by
        cases free 0x0A (List.mem_of_getLast? last)
      by_cases empty : part = []
      · simp [empty,toString_eq_nil]
      · simp [lineText,open',empty,toString_eq_nil]

/-! ## The window -/

/-- The whole lines of the window, with their ends. -/
def window (file : Bytes) (maxBytes : Nat) : List Bytes :=
  let want := min maxBytes file.length
  let lines := ended 0x0A (file.drop (file.length - want))
  if want < file.length then lines.tail else lines

theorem tail_window (file : Bytes) (n maxBytes : Nat) : tail file n maxBytes = ((window file maxBytes).rtake n).map lineText := by
  have lines : (window file maxBytes).map lineText =
      let want := min maxBytes file.length
      let lines := rustLines (fromUtf8Lossy (file.drop (file.length - want)))
      if want < file.length ∧ lines ≠ [] then lines.tail else lines := by
    rw [window]
    simp only [rustLines_toString]
    generalize ended 0x0A (file.drop (file.length - min maxBytes file.length)) = lines
    cases lines <;> split_ifs <;> simp_all
  rw [tail,← lines,List.rtake,List.length_map,List.map_drop]

theorem window_rtake (file : Bytes) (maxBytes : Nat) : window file maxBytes <:+ ended 0x0A file ∧
    ∀ n, file.length ≤ maxBytes ∨ ((ended 0x0A file).rtake n).flatten.length < maxBytes →
      (window file maxBytes).rtake n = (ended 0x0A file).rtake n := by
  by_cases fits : file.length ≤ maxBytes
  · have whole : window file maxBytes = ended 0x0A file := by
      simp [window,Nat.min_eq_right fits]
    rw [whole]
    exact ⟨List.suffix_refl _,fun _ _ => rfl⟩
  · have part : window file maxBytes = (ended 0x0A (file.drop (file.length - maxBytes))).tail := by
      have want : min maxBytes file.length = maxBytes := by omega
      simp [window,want,Nat.not_le.mp fits]
    have split := List.take_append_drop (file.length - maxBytes) file
    have size : (file.drop (file.length - maxBytes)).length = maxBytes := by
      rw [List.length_drop]
      omega
    generalize file.take (file.length - maxBytes) = front at split
    generalize file.drop (file.length - maxBytes) = buf at split part size
    subst split
    rw [part]
    by_cases filled : buf = []
    · subst filled
      subst size
      refine ⟨List.nil_suffix,fun n room => ?_⟩
      rcases room with small | small
      · exact absurd small fits
      · cases small
    · obtain ⟨earlier,line,first,rest,own,whole,_⟩ := @ended_window _ _ 0x0A _ front filled
      refine ⟨?_,fun n room => rtake_window front filled (size.symm ▸ room.resolve_left fits)⟩
      rw [own,whole,List.tail_cons]
      exact ⟨earlier ++ [line],by simp⟩

/-- The lines that the dashboard shows are the last of the file, none of them a fragment, and
`n` of them where the window is the file or longer than these are. -/
theorem tail_lines (file : Bytes) (n maxBytes : Nat) :
    (tail file n maxBytes).length ≤ n ∧ tail file n maxBytes <:+ rustLines (fromUtf8Lossy file) ∧
      (file.length ≤ maxBytes ∨ ((ended 0x0A file).rtake n).flatten.length < maxBytes →
        tail file n maxBytes = (rustLines (fromUtf8Lossy file)).rtake n) := by
  obtain ⟨within,last⟩ := window_rtake file maxBytes
  rw [tail_window,rustLines_toString]
  refine ⟨?_,?_,fun room => ?_⟩
  · rw [List.length_map,List.rtake,List.length_drop]
    omega
  · exact ((List.drop_suffix _ _).trans within).map lineText
  · rw [last n room,List.rtake,List.rtake,List.length_map,List.map_drop]

example : tail (encode "line-1\nline-2\nline-3\n".toList) 5 16 = [str "line-2",str "line-3"] := by decide +kernel

end FipsShield.Ui
