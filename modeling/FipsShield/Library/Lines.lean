import Mathlib.Data.List.Basic
import Mathlib.Data.List.DropRight

/-! Texts made of lines, and lines made of fields: what is written line by line is read
back line by line, over any units. -/
namespace FipsShield.Lines
universe u
variable {α : Type u}

/-- The fields of a line: its runs of units that are not blank. -/
def fields (blank : α → Bool) (line : List α) : List (List α) :=
  (line.splitOnP blank).filter fun field => !field.isEmpty

/-- The lines of a text; the last one need not be ended. -/
def records (ends : α → Bool) (text : List α) : List (List α) :=
  match (text.splitOnP ends).getLast? with
  | some [] => (text.splitOnP ends).dropLast
  | _ => text.splitOnP ends

def written (stop : α) (lines : List (List α)) : List α := lines.flatMap (· ++ [stop])

section Parts
variable [DecidableEq α]

/-- `${line%%c*}`: what is before the first `c`, or the line. -/
def before (c : α) (line : List α) : List α := line.takeWhile (· != c)

/-- `${line#*c}`: what is after the first `c`, or the line. -/
def after (c : α) (line : List α) : List α := if line.contains c then (line.dropWhile (· != c)).tail else line

/-- `${line%c*}`: what is before the last `c`, or the line. -/
def beforeLast (c : α) (line : List α) : List α :=
  if line.contains c then (line.reverse.dropWhile (· != c)).tail.reverse else line

/-- `${line##*c}`: what is after the last `c`, or the line. -/
def afterLast (c : α) (line : List α) : List α := (line.reverse.takeWhile (· != c)).reverse

end Parts

variable {blank ends : α → Bool} {stop : α}

@[simp] theorem written_append (stop : α) (first second : List (List α)) :
    written stop (first ++ second) = written stop first ++ written stop second := List.flatMap_append

theorem splitOnP_append (stops : ends stop = true) {lines : List (List α)}
    (free : ∀ line ∈ lines, ∀ u ∈ line, ends u = false) (text : List α) :
    (written stop lines ++ text).splitOnP ends = lines ++ text.splitOnP ends := by
  induction lines with
  | nil => rfl
  | cons line rest ih =>
    have later := ih fun other member => free other (by simp [member])
    rw [written,List.flatMap_cons,List.append_assoc,List.append_assoc,List.singleton_append,← written,
      List.splitOnP_append_cons_of_forall_mem (free line (by simp)) stop stops,later]
    rfl

/-- Units that do not divide go to the first part of what follows them. -/
theorem splitOnP_free_append {first : List α} (free : ∀ u ∈ first, ends u = false) (text : List α) :
    (first ++ text).splitOnP ends = (text.splitOnP ends).modifyHead (first ++ ·) := by
  induction first with
  | nil => cases split : text.splitOnP ends <;> simp [split]
  | cons u rest ih =>
    rw [List.cons_append,List.splitOnP_cons_eq_if_modifyHead,if_neg (by simp [free u]),
      ih fun v member => free v (List.mem_cons_of_mem u member),List.modifyHead_modifyHead]
    rfl

theorem splitOnP_written (stops : ends stop = true) {lines : List (List α)}
    (free : ∀ line ∈ lines, ∀ u ∈ line, ends u = false) :
    (written stop lines).splitOnP ends = lines ++ [[]] := by
  simpa using splitOnP_append stops free []

theorem records_append (stops : ends stop = true) {lines : List (List α)}
    (free : ∀ line ∈ lines, ∀ u ∈ line, ends u = false) (text : List α) :
    records ends (written stop lines ++ text) = lines ++ records ends text := by
  obtain ⟨earlier,last,split⟩ := List.eq_nil_or_concat (text.splitOnP ends) |>.resolve_left (List.splitOnP_ne_nil ends text)
  rw [List.concat_eq_append] at split
  simp only [records,splitOnP_append stops free,split,← List.append_assoc,List.getLast?_concat,List.dropLast_concat]
  cases last with
  | nil => rfl
  | cons u rest => simp

theorem records_written (stops : ends stop = true) {lines : List (List α)}
    (free : ∀ line ∈ lines, ∀ u ∈ line, ends u = false) : records ends (written stop lines) = lines := by
  simpa [records] using records_append stops free []

theorem splitOnP_free (text : List α) : ∀ line ∈ text.splitOnP ends, ∀ u ∈ line, ends u = false := by
  induction text with
  | nil => simp
  | cons v rest ih =>
    rw [List.splitOnP_cons_eq_if_modifyHead]
    split_ifs with stop
    · simpa using ih
    · cases split : rest.splitOnP ends with
      | nil => exact absurd split (List.splitOnP_ne_nil ends rest)
      | cons first others =>
        rw [split] at ih
        simp only [List.modifyHead_cons,List.forall_mem_cons] at ih ⊢
        exact ⟨⟨by simpa using stop,ih.1⟩,ih.2⟩

theorem fields_free {line field : List α} (own : field ∈ fields blank line) : ∀ u ∈ field, blank u = false :=
  splitOnP_free line field (List.mem_of_mem_filter own)

theorem splitOnP_subset {line field : List α} (own : field ∈ line.splitOnP blank) : field ⊆ line := by
  induction line generalizing field with
  | nil =>
    obtain rfl := List.mem_singleton.mp own
    exact List.Subset.refl _
  | cons u rest ih =>
    rw [List.splitOnP_cons_eq_if_modifyHead] at own
    split_ifs at own
    · rcases List.mem_cons.mp own with rfl | other
      · exact List.nil_subset _
      · exact List.subset_cons_of_subset u (ih other)
    · cases split : rest.splitOnP blank with
      | nil => exact absurd split (List.splitOnP_ne_nil blank rest)
      | cons first others =>
        rw [split] at own ih
        rcases List.mem_cons.mp own with rfl | other
        · exact List.cons_subset_cons u (ih List.mem_cons_self)
        · exact List.subset_cons_of_subset u (ih (List.mem_cons_of_mem _ other))

theorem fields_subset {line field : List α} (own : field ∈ fields blank line) : field ⊆ line :=
  splitOnP_subset (List.mem_of_mem_filter own)

theorem records_free (text : List α) : ∀ line ∈ records ends text, ∀ u ∈ line, ends u = false := by
  intro line member
  apply splitOnP_free text
  rw [records] at member
  split at member
  · exact List.dropLast_subset _ member
  · exact member

/-- A line between two stops is one of the written lines. -/
theorem enclosed_iff (stops : ends stop = true) {lines : List (List α)} (free : ∀ line ∈ lines, ∀ u ∈ line, ends u = false)
    {line : List α} (own : ∀ u ∈ line, ends u = false) (filled : line ≠ []) :
    stop::line ++ [stop] <:+: stop::written stop lines ↔ line ∈ lines := by
  constructor
  · rintro ⟨earlier,later,whole⟩
    have split : (stop::written stop lines).splitOnP ends = [] :: (lines ++ [[]]) := by
      rw [List.splitOnP_cons_eq_if_modifyHead,if_pos stops,splitOnP_written stops free]
    have inner : (stop::written stop lines).splitOnP ends = earlier.splitOnP ends ++ line::later.splitOnP ends := by
      rw [← whole,List.append_assoc,List.cons_append,List.cons_append,List.splitOnP_append_cons earlier _ stops,
        List.append_assoc,List.singleton_append,List.splitOnP_append_cons_of_forall_mem own stop stops]
    have member : line ∈ [] :: (lines ++ [[]]) := by
      rw [← split,inner]
      simp
    simpa [filled] using member
  · intro member
    obtain ⟨first,second,rfl⟩ := List.append_of_mem member
    rw [written_append]
    rcases List.eq_nil_or_concat first with rfl | ⟨others,last,rfl⟩
    · exact ⟨[],written stop second,by simp [written]⟩
    · exact ⟨stop::(written stop others ++ last),written stop second,by simp [written]⟩

theorem fields_records (text : List α) :
    (records ends text).filter (fun line => !line.isEmpty) = fields ends text := by
  obtain ⟨earlier,last,split⟩ := List.eq_nil_or_concat (text.splitOnP ends) |>.resolve_left (List.splitOnP_ne_nil ends text)
  rw [List.concat_eq_append] at split
  simp only [records,fields,split,List.getLast?_concat,List.dropLast_concat]
  cases last <;> simp

/-- A field in which a finer division finds nothing to divide is one of its fields. -/
theorem fields_finer {coarse fine : α → Bool} (finer : ∀ u, coarse u = true → fine u = true) {line field : List α}
    (own : field ∈ fields coarse line) (whole : ∀ u ∈ field, fine u = false) : field ∈ fields fine line := by
  have pieces : ∃ first others first' others', line.splitOnP coarse = first::others ∧
      line.splitOnP fine = first'::others' ∧ ((∀ u ∈ first, fine u = false) → first' = first) ∧
      ∀ piece ∈ others, (∀ u ∈ piece, fine u = false) → piece ∈ others' := by
    clear own
    induction line with
    | nil => exact ⟨[],[],[],[],rfl,rfl,fun _ => rfl,by simp⟩
    | cons u rest ih =>
      obtain ⟨first,others,first',others',split,split',head,tail⟩ := ih
      rw [List.splitOnP_cons_eq_if_modifyHead,List.splitOnP_cons_eq_if_modifyHead,split,split']
      by_cases ends : coarse u = true
      · rw [if_pos ends,if_pos (finer u ends)]
        refine ⟨_,_,_,_,rfl,rfl,fun _ => rfl,fun piece member free => ?_⟩
        rcases List.mem_cons.mp member with rfl | other
        · rw [head free]
          exact List.mem_cons_self
        · exact List.mem_cons_of_mem _ (tail piece other free)
      · rw [if_neg ends]
        by_cases divides : fine u = true
        · rw [if_pos divides]
          refine ⟨_,_,_,_,rfl,rfl,fun free => ?_,fun piece member free => List.mem_cons_of_mem _ (tail piece member free)⟩
          have kept := free u (by simp)
          rw [divides] at kept
          contradiction
        · rw [if_neg divides]
          refine ⟨_,_,_,_,rfl,rfl,fun free => ?_,tail⟩
          rw [head fun v member => free v (List.mem_cons_of_mem _ member)]
  obtain ⟨first,others,first',others',split,split',head,tail⟩ := pieces
  obtain ⟨member,filled⟩ := List.mem_filter.mp own
  refine List.mem_filter.mpr ⟨?_,filled⟩
  rw [split] at member
  rw [split']
  rcases List.mem_cons.mp member with rfl | other
  · rw [head whole]
    exact List.mem_cons_self
  · exact List.mem_cons_of_mem _ (tail field other whole)

/-! ## Divisions of a line -/

theorem fields_append_cons (a b : List α) {gap : α} (gaps : blank gap = true) :
    fields blank (a ++ gap::b) = fields blank a ++ fields blank b := by
  rw [fields,List.splitOnP_append_cons a b gaps,List.filter_append]
  rfl

theorem fields_cons_blank {u : α} (gaps : blank u = true) (rest : List α) : fields blank (u::rest) = fields blank rest :=
  fields_append_cons [] rest gaps

theorem fields_blank_append {a : List α} (gaps : ∀ u ∈ a, blank u = true) (b : List α) :
    fields blank (a ++ b) = fields blank b := by
  induction a with
  | nil => rfl
  | cons u rest ih =>
    rw [List.cons_append,fields_cons_blank (gaps u (by simp)),ih fun v member => gaps v (by simp [member])]

/-- What does not divide a line is in one of its fields. -/
theorem mem_fields {line : List α} {u : α} (member : u ∈ line) (free : blank u = false) : ∃ field ∈ fields blank line, u ∈ field := by
  induction line with
  | nil => cases member
  | cons v rest ih =>
    by_cases gap : blank v = true
    · rw [fields_cons_blank gap]
      refine ih ((List.mem_cons.mp member).resolve_left ?_)
      rintro rfl
      rw [free] at gap
      cases gap
    · obtain ⟨first,others,split⟩ := List.exists_cons_of_ne_nil (List.splitOnP_ne_nil blank rest)
      have whole : fields blank (v::rest) = (v::first)::others.filter fun field => !field.isEmpty := by
        rw [fields,List.splitOnP_cons_eq_if_modifyHead,if_neg gap,split]
        rfl
      rw [fields,split] at ih
      rw [whole]
      rcases List.mem_cons.mp member with rfl | later
      · exact ⟨_,List.mem_cons_self,List.mem_cons_self⟩
      · obtain ⟨field,own,inside⟩ := ih later
        obtain ⟨piece,filled⟩ := List.mem_filter.mp own
        rcases List.mem_cons.mp piece with rfl | other
        · exact ⟨_,List.mem_cons_self,List.mem_cons_of_mem v inside⟩
        · exact ⟨field,List.mem_cons_of_mem _ (List.mem_filter.mpr ⟨other,filled⟩),inside⟩

theorem field_filled {line field : List α} (own : field ∈ fields blank line) : field ≠ [] := by
  simpa using (List.mem_filter.mp own).2

theorem fields_nil {line : List α} : fields blank line = [] ↔ ∀ u ∈ line, blank u = true := by
  constructor
  · intro none u member
    by_contra unblank
    obtain ⟨field,own,_⟩ := mem_fields member (by simpa using unblank)
    rw [none] at own
    cases own
  · intro blanks
    rw [← List.append_nil line,fields_blank_append blanks]
    rfl

theorem fields_append_blank {b : List α} (gaps : ∀ u ∈ b, blank u = true) (a : List α) :
    fields blank (a ++ b) = fields blank a := by
  cases b with
  | nil => rw [List.append_nil]
  | cons gap rest =>
    rw [fields_append_cons a rest (gaps gap List.mem_cons_self),
      fields_nil.mpr fun u member => gaps u (List.mem_cons_of_mem gap member),List.append_nil]

theorem splitOnP_congr {other : α → Bool} {line : List α} (same : ∀ u ∈ line, blank u = other u) :
    line.splitOnP blank = line.splitOnP other := by
  induction line with
  | nil => rfl
  | cons u rest ih =>
    rw [List.splitOnP_cons_eq_if_modifyHead,List.splitOnP_cons_eq_if_modifyHead,same u List.mem_cons_self,
      ih fun v member => same v (List.mem_cons_of_mem u member)]

/-- The first unit of a line begins its first field, unless it divides. -/
theorem fields_head {u : α} (free : blank u = false) (rest : List α) : ∃ field ∈ fields blank (u::rest), field.head? = some u := by
  obtain ⟨first,others,split⟩ := List.exists_cons_of_ne_nil (List.splitOnP_ne_nil blank rest)
  refine ⟨u::first,List.mem_filter.mpr ⟨?_,rfl⟩,rfl⟩
  rw [List.splitOnP_cons_eq_if_modifyHead,if_neg (by simp [free]),split]
  exact List.mem_cons_self

/-- A line of one field is the field between blanks. -/
theorem fields_single {line field : List α} (one : fields blank line = [field]) :
    ∃ a b, line = a ++ field ++ b ∧ (∀ u ∈ a, blank u = true) ∧ ∀ u ∈ b, blank u = true := by
  induction line with
  | nil => cases one
  | cons u rest ih =>
    by_cases gap : blank u = true
    · rw [fields_cons_blank gap] at one
      obtain ⟨a,b,rfl,left,right⟩ := ih one
      exact ⟨u::a,b,rfl,List.forall_mem_cons.mpr ⟨gap,left⟩,right⟩
    · obtain ⟨first,others,split⟩ := List.exists_cons_of_ne_nil (List.splitOnP_ne_nil blank rest)
      rw [fields,List.splitOnP_cons_eq_if_modifyHead,if_neg gap,split] at one
      obtain ⟨rfl,none⟩ := List.cons.inj one
      have whole := @List.takeWhile_append_dropWhile _ (fun v => !blank v) rest
      have free : ∀ v ∈ rest.takeWhile (fun v => !blank v), blank v = false := by
        intro v member
        simpa using List.all_eq_true.mp List.all_takeWhile v member
      cases left : rest.dropWhile fun v => !blank v with
      | nil =>
        rw [left,List.append_nil] at whole
        rw [whole] at free
        rw [List.splitOnP_eq_singleton free] at split
        obtain ⟨rfl,_⟩ := List.cons.inj split
        exact ⟨[],[],by simp,by simp,by simp⟩
      | cons v later =>
        have stop : blank v = true := by
          have head := List.head?_dropWhile_not (fun v => !blank v) rest
          simpa [left] using head
        rw [left] at whole
        rw [← whole,List.splitOnP_append_cons_of_forall_mem free v stop] at split
        obtain ⟨rfl,rfl⟩ := List.cons.inj split
        refine ⟨[],v::later,by simp [whole],by simp,List.forall_mem_cons.mpr ⟨stop,fields_nil.mp none⟩⟩

/-- The parts of two texts, one after the other: the last of the first goes on with the first of the second. -/
theorem splitOnP_cut (a b : List α) : ∃ earlier last first later, a.splitOnP ends = earlier ++ [last] ∧
    b.splitOnP ends = first::later ∧ (a ++ b).splitOnP ends = earlier ++ (last ++ first)::later := by
  obtain ⟨first,later,split⟩ := List.exists_cons_of_ne_nil (List.splitOnP_ne_nil ends b)
  induction a with
  | nil => exact ⟨[],[],first,later,rfl,split,split⟩
  | cons u rest ih =>
    obtain ⟨earlier,last,first',later',own,other,whole⟩ := ih
    rw [List.cons_append,List.splitOnP_cons_eq_if_modifyHead,List.splitOnP_cons_eq_if_modifyHead,own,whole]
    split_ifs with stop
    · exact ⟨[]::earlier,last,first',later',rfl,other,rfl⟩
    · cases earlier with
      | nil => exact ⟨[],u::last,first',later',rfl,other,rfl⟩
      | cons line rest => exact ⟨(u::line)::rest,last,first',later',rfl,other,rfl⟩

/-- The last part is empty exactly where nothing follows the last division. -/
theorem splitOnP_last {a last : List α} {earlier : List (List α)} (split : a.splitOnP ends = earlier ++ [last]) :
    last = [] ↔ ∀ u ∈ a.getLast?, ends u = true := by
  rcases List.eq_nil_or_concat a with rfl | ⟨front,u,rfl⟩
  · have parts : earlier = [] ∧ last = [] := by
      cases earlier with
      | nil => simpa using split.symm
      | cons line rest => simp at split
    simp [parts]
  · rw [List.concat_eq_append] at *
    obtain ⟨init,part,first,later,_,other,whole⟩ := @splitOnP_cut α ends front [u]
    rw [List.splitOnP_cons_eq_if_modifyHead,List.splitOnP_nil] at other
    rw [whole] at split
    rw [List.getLast?_concat]
    by_cases stop : ends u = true
    · rw [if_pos stop] at other
      obtain ⟨rfl,rfl⟩ := List.cons.inj other
      have ended := congrArg List.getLast? split
      simp at ended
      simp [stop,← ended]
    · rw [if_neg stop] at other
      obtain ⟨rfl,rfl⟩ := List.cons.inj other
      have ended := congrArg List.getLast? split
      simp at ended
      simp [stop,← ended]

/-- A line that is divided at two kinds of units, first at one and then at the other. -/
theorem splitOnP_or (coarse fine : α → Bool) (line : List α) :
    line.splitOnP (fun u => fine u || coarse u) = (line.splitOnP coarse).flatMap (List.splitOnP fine) := by
  induction line with
  | nil => rfl
  | cons u rest ih =>
    obtain ⟨first,others,split⟩ := List.exists_cons_of_ne_nil (List.splitOnP_ne_nil coarse rest)
    rw [List.splitOnP_cons_eq_if_modifyHead,ih,List.splitOnP_cons_eq_if_modifyHead,split]
    by_cases stop : coarse u = true
    · simp [stop]
    · by_cases gap : fine u = true
      · simp [stop,gap,List.splitOnP_cons_eq_if_modifyHead]
      · obtain ⟨part,parts,split'⟩ := List.exists_cons_of_ne_nil (List.splitOnP_ne_nil fine first)
        simp [stop,gap,List.splitOnP_cons_eq_if_modifyHead,split']

theorem fields_or (coarse fine : α → Bool) (line : List α) :
    fields (fun u => fine u || coarse u) line = (line.splitOnP coarse).flatMap (fields fine) := by
  rw [fields,splitOnP_or,List.filter_flatMap]
  rfl

/-- What makes no more of any item than another, but the same of all, makes as much of each. -/
theorem flatMap_lengths {β : Type u} {f g : β → List α} {items : List β}
    (least : ∀ item ∈ items, (f item).length ≤ (g item).length) (same : items.flatMap f = items.flatMap g) :
    ∀ item ∈ items, (f item).length = (g item).length := by
  have fewer {items : List β} (least : ∀ item ∈ items, (f item).length ≤ (g item).length) :
      (items.flatMap f).length ≤ (items.flatMap g).length := by
    induction items with
    | nil => exact Nat.le_refl _
    | cons item rest ih =>
      rw [List.flatMap_cons,List.flatMap_cons,List.length_append,List.length_append]
      exact Nat.add_le_add (least item (by simp)) (ih fun other member => least other (by simp [member]))
  induction items with
  | nil => simp
  | cons item rest ih =>
    have later := fun other member => least other (List.mem_cons_of_mem item member)
    have sizes := congrArg List.length same
    rw [List.flatMap_cons,List.flatMap_cons,List.length_append,List.length_append] at sizes
    have one := least item (by simp)
    have others := fewer later
    have own : (f item).length = (g item).length := by omega
    rw [List.flatMap_cons,List.flatMap_cons] at same
    exact List.forall_mem_cons.mpr ⟨own,ih later (List.append_inj same own).2⟩

theorem fields_pair {first second : List α} {gap : α} (gaps : blank gap = true)
    (free : ∀ u ∈ first, blank u = false) (free' : ∀ u ∈ second, blank u = false) (filled : first ≠ [])
    (filled' : second ≠ []) : fields blank (first ++ gap::second) = [first,second] := by
  rw [fields,List.splitOnP_append_cons_of_forall_mem free gap gaps,List.splitOnP_eq_singleton free']
  simp [filled,filled']

theorem split_unique {a b x y : List α} (free : stop ∉ a) (free' : stop ∉ b) (same : a ++ stop::x = b ++ stop::y) :
    a = b ∧ x = y := by
  induction a generalizing b with
  | nil =>
    cases b with
    | nil => exact ⟨rfl,(List.cons.inj same).2⟩
    | cons u rest => exact absurd (List.cons.inj same).1 fun own => free' (own ▸ List.mem_cons_self)
  | cons u rest ih =>
    cases b with
    | nil => exact absurd (List.cons.inj same).1 fun own => free (own ▸ List.mem_cons_self)
    | cons v other =>
      obtain ⟨rfl,later⟩ := List.cons.inj same
      obtain ⟨rfl,rest⟩ := ih (fun member => free (List.mem_cons_of_mem _ member))
        (fun member => free' (List.mem_cons_of_mem _ member)) later
      exact ⟨rfl,rest⟩

/-! ## Beginnings of what is written -/

theorem records_line {line : List α} (free : ∀ u ∈ line, ends u = false) :
    records ends line = if line = [] then [] else [line] := by
  rw [records,List.splitOnP_eq_singleton free]
  cases line <;> rfl

theorem written_split (single : ∀ u, ends u = true → u = stop) (text : List α) :
    ∃ earlier last, text.splitOnP ends = earlier ++ [last] ∧ text = written stop earlier ++ last := by
  induction text with
  | nil => exact ⟨[],[],rfl,rfl⟩
  | cons u rest ih =>
    obtain ⟨earlier,last,split,rfl⟩ := ih
    rw [List.splitOnP_cons_eq_if_modifyHead,split]
    split_ifs with stops
    · exact ⟨[]::earlier,last,rfl,by rw [single u stops]; rfl⟩
    · cases earlier with
      | nil => exact ⟨[],u::last,rfl,rfl⟩
      | cons line others => exact ⟨(u::line)::others,last,rfl,rfl⟩

/-- The lines of a text, written, are the text with its last line ended. -/
theorem written_records (single : ∀ u, ends u = true ↔ u = stop) (text : List α) :
    (text = [] ∨ text.getLast? = some stop) ∧ written stop (records ends text) = text ∨
    ¬ (text = [] ∨ text.getLast? = some stop) ∧ written stop (records ends text) = text ++ [stop] := by
  obtain ⟨earlier,last,split,whole⟩ := written_split (fun u => (single u).mp) text
  have free := @splitOnP_free α ends text last (by simp [split])
  rw [records,split,List.getLast?_concat]
  rcases List.eq_nil_or_concat last with rfl | ⟨front,u,rfl⟩
  · refine Or.inl ⟨?_,by rw [List.dropLast_concat,whole,List.append_nil]⟩
    rcases List.eq_nil_or_concat earlier with rfl | ⟨others,line,rfl⟩
    · exact Or.inl whole
    · exact Or.inr (by rw [whole]; simp [written])
  · rw [List.concat_eq_append] at *
    have open' : u ≠ stop := by
      rintro rfl
      have plain := free u (by simp)
      rw [(single u).mpr rfl] at plain
      cases plain
    refine Or.inr ⟨?_,?_⟩
    · rw [whole]
      simp [open']
    · rw [whole]
      cases front <;> simp [written]

/-- A beginning of written lines has some of them whole and a beginning of the next one. -/
theorem take_written (lines : List (List α)) (m : Nat) : ∃ whole rest part, lines = whole ++ rest ∧
    (written stop lines).take m = written stop whole ++ part ∧
    (part = [] ∨ ∃ line later, rest = line::later ∧ part <+: line) := by
  induction lines generalizing m with
  | nil => exact ⟨[],[],[],rfl,by simp [written],Or.inl rfl⟩
  | cons line rest ih =>
    have split : written stop (line::rest) = line ++ stop::written stop rest := by simp [written]
    rcases Nat.lt_or_ge line.length m with beyond | inside
    · obtain ⟨k,rfl⟩ : ∃ k, m = line.length + (k + 1) := ⟨m - line.length - 1,by omega⟩
      obtain ⟨whole,others,part,same,taken,cut⟩ := ih k
      refine ⟨line::whole,others,part,by rw [same]; rfl,?_,cut⟩
      rw [split,List.take_append,List.take_of_length_le (by omega),Nat.add_sub_cancel_left,List.take_succ_cons,taken]
      simp [written]
    · refine ⟨[],line::rest,line.take m,rfl,?_,Or.inr ⟨line,rest,rfl,List.take_prefix m line⟩⟩
      rw [split,List.take_append_of_le_length inside]
      rfl

theorem prefix_free {part line : List α} (within : part <+: line) (free : ∀ u ∈ line, ends u = false) :
    ∀ u ∈ part, ends u = false := fun u member => free u (within.subset member)

/-- What is cut off of written lines has no more lines than they are. -/
theorem records_take (stops : ends stop = true) {lines : List (List α)} (free : ∀ line ∈ lines, ∀ u ∈ line, ends u = false)
    (m : Nat) : ∃ whole rest part, lines = whole ++ rest ∧ (written stop lines).take m = written stop whole ++ part ∧
      (part = [] ∧ records ends ((written stop lines).take m) = whole ∨
        part ≠ [] ∧ records ends ((written stop lines).take m) = whole ++ [part] ∧
          ∃ line later, rest = line::later ∧ part <+: line) := by
  obtain ⟨whole,rest,part,rfl,taken,cut⟩ := @take_written α stop lines m
  refine ⟨whole,rest,part,rfl,taken,?_⟩
  have own : ∀ line ∈ whole, ∀ u ∈ line, ends u = false := fun line member => free line (by simp [member])
  rw [taken,records_append stops own]
  by_cases none : part = []
  · refine Or.inl ⟨none,?_⟩
    rw [none,records_line (by simp),if_pos rfl,List.append_nil]
  · obtain ⟨line,later,rfl,within⟩ := cut.resolve_left none
    refine Or.inr ⟨none,?_,line,later,rfl,within⟩
    rw [records_line (prefix_free within (free line (by simp))),if_neg none]

theorem records_take_length (stops : ends stop = true) {lines : List (List α)}
    (free : ∀ line ∈ lines, ∀ u ∈ line, ends u = false) (m : Nat) :
    (records ends ((written stop lines).take m)).length ≤ lines.length := by
  obtain ⟨whole,rest,part,rfl,_,⟨_,cut⟩ | ⟨_,cut,line,later,rfl,_⟩⟩ := records_take stops free m
  · rw [cut]
    simp
  · rw [cut]
    simp

/-- Nothing but the last stop is cut off where the lines stay the same. -/
theorem records_take_eq (stops : ends stop = true) {lines : List (List α)} (free : ∀ line ∈ lines, ∀ u ∈ line, ends u = false)
    (filled : ∀ line ∈ lines, line ≠ []) (n : Nat) :
    records ends ((written stop lines).take n) = lines ↔ (written stop lines).length ≤ n + 1 := by
  constructor
  · intro same
    obtain ⟨whole,rest,part,split,taken,⟨none,cut⟩ | ⟨_,cut,line,later,tail,_⟩⟩ := records_take stops free n
    · have all : whole = lines := cut.symm.trans same
      have size := congrArg List.length taken
      rw [none,List.append_nil,all,List.length_take] at size
      omega
    · have all : lines = whole ++ [part] := same.symm.trans cut
      rw [tail,all] at split
      obtain ⟨rfl,rfl⟩ := List.cons.inj (List.append_cancel_left split)
      have size := congrArg List.length taken
      rw [List.length_take,all,written_append,List.length_append,List.length_append] at size
      rw [all,written_append,List.length_append]
      have last : (written stop [part]).length = part.length + 1 := by simp [written]
      omega
  · intro long
    rcases Nat.lt_or_ge n (written stop lines).length with short | whole
    · rcases List.eq_nil_or_concat lines with rfl | ⟨front,line,rfl⟩
      · simp [written] at short
      · rw [List.concat_eq_append] at *
        have split : written stop (front ++ [line]) = (written stop front ++ line) ++ [stop] := by simp [written]
        rw [split,List.length_append,List.length_singleton] at short long
        rw [split,List.take_append_of_le_length (by omega),List.take_of_length_le (by omega),
          records_append stops fun other member => free other (by simp [member]),records_line (free line (by simp)),
          if_neg (filled line (by simp))]
    · rw [List.take_of_length_le whole]
      exact records_written stops free

/-- Lines that come back after they were cut off twice were whole after the first time. -/
theorem records_take_twice (stops : ends stop = true) {lines : List (List α)}
    (free : ∀ line ∈ lines, ∀ u ∈ line, ends u = false) {n m : Nat}
    (same : records ends ((written stop (records ends ((written stop lines).take n))).take m) = lines) :
    records ends ((written stop lines).take n) = lines := by
  obtain ⟨whole,rest,part,split,_,⟨_,cut⟩ | ⟨_,cut,line,later,tail,within⟩⟩ := records_take stops free n
  · have fewer := records_take_length stops (@records_free α ends ((written stop lines).take n)) m
    rw [same,cut,split,List.length_append] at fewer
    have none : rest = [] := List.eq_nil_of_length_eq_zero (by omega)
    rw [cut,split,none,List.append_nil]
  · have inner : ∀ other ∈ whole ++ [part], ∀ u ∈ other, ends u = false := cut ▸ records_free _
    rw [cut] at same ⊢
    have fewer := records_take_length stops inner m
    rw [same,split,tail,List.length_append,List.length_append,List.length_cons,List.length_singleton] at fewer
    have alone : later = [] := List.eq_nil_of_length_eq_zero (by omega)
    obtain ⟨whole',rest',part',split',_,⟨_,cut'⟩ | ⟨_,cut',line',later',tail',within'⟩⟩ := records_take stops inner m
    · have again : whole' = whole ++ [line] := by rw [← cut',same,split,tail,alone]
      have sizes := congrArg List.length split'
      rw [again,List.length_append,List.length_append,List.length_append,List.length_singleton,List.length_singleton] at sizes
      have none : rest' = [] := List.eq_nil_of_length_eq_zero (by omega)
      rw [split',none,List.append_nil,again,split,tail,alone]
    · have again : whole' ++ [part'] = whole ++ [line] := by rw [← cut',same,split,tail,alone]
      obtain ⟨front,last⟩ := List.append_inj' again rfl
      obtain rfl : part' = line := (List.cons.inj last).1
      rw [tail',front] at split'
      have ahead := List.append_cancel_left split'
      obtain rfl : part = line' := (List.cons.inj ahead).1
      rw [split,tail,alone,within.eq_of_length_le within'.length_le]

/-- What two filters leave of a text, each cut off after some of its output, is the text
itself exactly where both keep every line and nothing but a last stop is cut off. -/
theorem take_filters (stops : ends stop = true) {first second : List α → Bool} (filled : first [] = false) {text : List α} {n m : Nat} :
    (written stop ((records ends ((written stop ((records ends text).filter first)).take n)).filter second)).take m = text ↔
      (∀ line ∈ records ends text, first line = true ∧ second line = true) ∧
      (written stop (records ends text)).length ≤ n + 1 ∧ (written stop (records ends text)).take m = text := by
  have free := @records_free α ends text
  have kept (keep : List α → Bool) {lines : List (List α)} (own : ∀ line ∈ lines, ∀ u ∈ line, ends u = false) :
      ∀ line ∈ lines.filter keep, ∀ u ∈ line, ends u = false := fun line member => own line (List.mem_of_mem_filter member)
  have filled' (keeps : ∀ line ∈ records ends text, first line = true) : ∀ line ∈ records ends text, line ≠ [] := by
    rintro line member rfl
    rw [keeps [] member] at filled
    cases filled
  constructor
  · intro same
    -- No stage has more lines than the one before it, and the last has as many as the first.
    generalize second' : (records ends ((written stop ((records ends text).filter first)).take n)).filter second = left at same
    have own : ∀ line ∈ left, ∀ u ∈ line, ends u = false := second' ▸ kept second (records_free _)
    have size : (records ends text).length ≤ left.length := by
      rw [← same]
      exact records_take_length stops own m
    have passed := records_take_length stops (kept first free) n
    have fewer := List.length_filter_le second (records ends ((written stop ((records ends text).filter first)).take n))
    have least := List.length_filter_le first (records ends text)
    rw [second'] at fewer
    have one : (records ends text).filter first = records ends text :=
      List.filter_eq_self.mpr (List.length_filter_eq_length_iff.mp (by omega))
    rw [one] at second' fewer passed
    have two : (records ends ((written stop (records ends text)).take n)).filter second =
        records ends ((written stop (records ends text)).take n) :=
      List.filter_eq_self.mpr (List.length_filter_eq_length_iff.mp (by rw [second']; omega))
    rw [two] at second'
    have whole : records ends ((written stop (records ends text)).take n) = records ends text := by
      apply records_take_twice stops free (m := m)
      rw [second',same]
    rw [whole] at second' two
    have keeps := List.filter_eq_self.mp one
    refine ⟨fun line member => ⟨keeps line member,List.filter_eq_self.mp two line member⟩,
      (records_take_eq stops free (filled' keeps) n).mp whole,?_⟩
    rw [second',same]
  · rintro ⟨all,whole,last⟩
    have one : (records ends text).filter first = records ends text :=
      List.filter_eq_self.mpr fun line member => (all line member).1
    have two : (records ends text).filter second = records ends text :=
      List.filter_eq_self.mpr fun line member => (all line member).2
    have some := filled' fun line member => (all line member).1
    rw [one,(records_take_eq stops free some n).mpr whole,two,last]

/-! ## Parts of a line -/

section Parts
variable [DecidableEq α] {c : α} {a b : List α}

theorem before_stop (free : c ∉ a) : before c (a ++ c::b) = a := by
  have own : ∀ u ∈ a, (u != c) = true := fun u member => by simpa using fun same : u = c => free (same ▸ member)
  rw [before,List.takeWhile_append_of_pos own]
  simp

theorem before_cut (c : α) (a b : List α) : before c (a ++ c::b) = before c a := by
  rw [before,before,List.takeWhile_append,List.takeWhile_cons_of_neg (by simp),List.append_nil]
  split_ifs with whole
  · exact ((List.takeWhile_prefix _).eq_of_length whole).symm
  · rfl

theorem after_stop (free : c ∉ a) : after c (a ++ c::b) = b := by
  have own : ∀ u ∈ a, (u != c) = true := fun u member => by simpa using fun same : u = c => free (same ▸ member)
  rw [after,if_pos (by simp),List.dropWhile_append_of_pos own]
  simp

theorem beforeLast_stop (free : c ∉ b) : beforeLast c (a ++ c::b) = a := by
  have own : ∀ u ∈ b.reverse, (u != c) = true := by
    intro u member
    simpa using fun same : u = c => free (same ▸ List.mem_reverse.mp member)
  rw [beforeLast,if_pos (by simp),List.reverse_append,List.reverse_cons,List.append_assoc,
    List.dropWhile_append_of_pos own]
  simp

theorem before_free (c : α) (line : List α) : c ∉ before c line := by
  intro member
  have other := List.all_eq_true.mp (List.all_takeWhile (p := (· != c))) c member
  simp at other

/-- What is before the first `c`, the `c` and what is after it are the line. -/
theorem before_after {line : List α} (member : c ∈ line) : before c line ++ c::after c line = line := by
  obtain ⟨a,b,rfl,free⟩ := List.eq_append_cons_of_mem member
  rw [before_stop free,after_stop free]

theorem afterLast_stop (free : c ∉ b) : afterLast c (a ++ c::b) = b := by
  have own : ∀ u ∈ b.reverse, (u != c) = true := by
    intro u member
    simpa using fun same : u = c => free (same ▸ List.mem_reverse.mp member)
  rw [afterLast,List.reverse_append,List.reverse_cons,List.append_assoc,List.takeWhile_append_of_pos own]
  simp

theorem before_subset (c : α) (line : List α) : before c line ⊆ line := (List.takeWhile_sublist _).subset

theorem after_subset (c : α) (line : List α) : after c line ⊆ line := by
  rw [after]
  split_ifs
  · exact fun u member => (List.dropWhile_suffix _).subset (List.mem_of_mem_tail member)
  · exact List.Subset.refl line

theorem beforeLast_subset (c : α) (line : List α) : beforeLast c line ⊆ line := by
  rw [beforeLast]
  split_ifs
  · intro u member
    have inside := List.mem_of_mem_tail (List.mem_reverse.mp member)
    exact List.mem_reverse.mp ((List.dropWhile_suffix _).subset inside)
  · exact List.Subset.refl line

end Parts

/-! ## Lines with their ends -/

section Ended
variable [DecidableEq α] {c : α} {a b : List α}

/-- The lines of a text, each with its end; the last one need not have one. -/
def ended (c : α) (text : List α) : List (List α) :=
  let parts := text.splitOnP (· == c)
  parts.dropLast.map (· ++ [c]) ++ parts.getLast?.toList.filter fun part => !part.isEmpty

theorem ended_append (c : α) (a b : List α) : ended c (a ++ c::b) = (a.splitOnP (· == c)).map (· ++ [c]) ++ ended c b := by
  have some := List.splitOnP_ne_nil (· == c) b
  have parts : (a ++ c::b).splitOnP (· == c) = a.splitOnP (· == c) ++ b.splitOnP (· == c) :=
    List.splitOnP_append_cons a b (beq_self_eq_true c)
  rw [ended,parts]
  simp only [List.dropLast_append_of_ne_nil some,List.map_append,List.getLast?_append_of_ne_nil _ some,ended,List.append_assoc]

theorem unended (free : c ∉ a) : ∀ u ∈ a, (u == c) = false := fun _ member =>
  beq_eq_false_iff_ne.mpr fun same => free (same ▸ member)

theorem ended_line (free : c ∉ a) (b : List α) : ended c (a ++ c::b) = (a ++ [c])::ended c b := by
  rw [ended_append,List.splitOnP_eq_singleton (unended free)]
  rfl

theorem ended_free (free : c ∉ a) : ended c a = if a = [] then [] else [a] := by
  rw [ended,List.splitOnP_eq_singleton (unended free)]
  cases a <;> rfl

/-- The parts of a text, of which the last goes on with units that end none. -/
theorem splitOnP_concat (a : List α) (free : c ∉ b) : ∃ earlier last, (a ++ b).splitOnP (· == c) = earlier ++ [last ++ b] := by
  obtain ⟨earlier,last,first,later,_,own,whole⟩ := @splitOnP_cut _ (· == c) a b
  rw [List.splitOnP_eq_singleton (unended free)] at own
  obtain ⟨rfl,rfl⟩ := List.cons.inj own
  exact ⟨earlier,last,whole⟩

/-- The lines of a window that ends where the text ends are those of the text from some line
on, the first of them without what is before the window. -/
theorem ended_window (a : List α) (filled : b ≠ []) : ∃ earlier line first rest,
    ended c b = first::rest ∧ ended c (a ++ b) = earlier ++ line::rest ∧ first <:+ line := by
  by_cases member : c ∈ b
  · obtain ⟨x,y,rfl,free⟩ := List.eq_append_cons_of_mem member
    obtain ⟨earlier,last,split⟩ := splitOnP_concat a free
    refine ⟨earlier.map (· ++ [c]),last ++ x ++ [c],x ++ [c],ended c y,ended_line free y,?_,⟨last,by simp⟩⟩
    rw [← List.append_assoc,ended_append,split,List.map_append,List.map_singleton,List.append_assoc,List.singleton_append]
  · obtain ⟨earlier,last,split⟩ := splitOnP_concat a member
    refine ⟨earlier.map (· ++ [c]),last ++ b,b,[],?_,?_,List.suffix_append last b⟩
    · rw [ended_free member,if_neg filled]
    · rw [ended,split]
      simp [filled]

theorem ended_flatten (c : α) (text : List α) : (ended c text).flatten = text := by
  obtain ⟨earlier,last,split,whole⟩ := @written_split _ (· == c) c (fun _ same => beq_iff_eq.mp same) text
  rw [ended,split]
  conv_rhs => rw [whole]
  simp only [List.dropLast_concat,List.getLast?_concat,Option.toList_some,List.flatten_append,written,List.flatMap_def]
  cases last <;> simp

theorem rtake_append {β : Type u} (n : Nat) (earlier rest : List β) :
    (earlier ++ rest).rtake n = if n ≤ rest.length then rest.rtake n else earlier.rtake (n - rest.length) ++ rest := by
  rw [List.rtake,List.rtake,List.rtake,List.length_append]
  split_ifs with few
  · have drops : earlier.length + rest.length - n = earlier.length + (rest.length - n) := by omega
    rw [drops,List.drop_append]
    simp
  · rw [List.drop_append_of_le_length (by omega)]
    congr 2
    omega

/-- The last `n` lines are found in a window that is longer than they are. -/
theorem rtake_window {n : Nat} (a : List α) (filled : b ≠ [])
    (shorter : ((ended c (a ++ b)).rtake n).flatten.length < b.length) :
    (ended c b).tail.rtake n = (ended c (a ++ b)).rtake n := by
  obtain ⟨earlier,line,first,rest,own,whole,⟨front,ends⟩⟩ := @ended_window _ _ c _ a filled
  have size : first.length + rest.flatten.length = b.length := by
    rw [← congrArg List.length (ended_flatten c b),own,List.flatten_cons,List.length_append]
  rw [whole,← List.singleton_append,← List.append_assoc,rtake_append] at shorter ⊢
  rw [own,List.tail_cons]
  split_ifs at shorter ⊢ with few
  · rfl
  · -- Otherwise the line that the window starts in is among them.
    exfalso
    obtain ⟨k,more⟩ : ∃ k, n - rest.length = k + 1 := ⟨n - rest.length - 1,by omega⟩
    rw [more,List.rtake_concat_succ,List.flatten_append,List.flatten_append,List.flatten_singleton,← ends] at shorter
    simp only [List.length_append] at shorter
    omega

end Ended

end FipsShield.Lines
