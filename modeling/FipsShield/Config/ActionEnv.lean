import FipsShield.Config.Exports

/-! The assignments that `action-env` prints for the fail2ban action. -/
namespace FipsShield.Config
open Text Lines Banlist

def banFile : Str := str "SHIELD_BAN_FILE"
def banAlsoFile : Str := str "SHIELD_BAN_ALSO_FILE"
def pinDir : Str := str "SHIELD_GUARD_PIN_DIR"

def actionKeys : List Str := [banFile,banAlsoFile,pinDir]

/-- What the loop over the resolver's lines prints of a key, captured. -/
def gathered (res k : Str) : Str :=
  captured (((records newline (res ++ str "\n")).filter fun line => before 0x09 line = k).flatMap fun line =>
    beforeLast 0x09 (after 0x09 line))

def carried (res : Str) : Str := actionKeys.flatMap fun k =>
  let v := gathered res k
  if v = [] then [] else 0x20::k ++ str "='" ++ quoted v ++ str "'"

/-- `${_env# }`. -/
def unspaced (env : Str) : Str := if env.head? = some 0x20 then env.tail else env

def actionEnvLine (sh : Interpreter) (presets : Presets) (custom : Str) : Except Str Str := do
  validate sh presets custom
  return unspaced (carried (captured (resolveAll sh presets custom))) ++ str "\n"

/-- What the words in front of a command assign. -/
def assignments (text : Str) : Option (List (Str × Str)) := do
  match ← plainCommands text with
  | [] => some []
  | [words] => words.mapM assignedWord
  | _ => none

/-! ## What is read -/

def assignmentWord (entry : Str × Str) : List (Shell.Piece UInt16) := [.bare (entry.1 ++ [0x3D]),.quoted entry.2]

def words (pairs : List (Str × Str)) : Str :=
  pairs.flatMap fun entry => 0x20::entry.1 ++ str "='" ++ quoted entry.2 ++ str "'"

section Words
variable {pairs : List (Str × Str)}

theorem assignmentWord_written (entry : Str × Str) :
    Shell.writtenWord marks (assignmentWord entry) = entry.1 ++ str "='" ++ quoted entry.2 ++ str "'" := by
  have opening : str "='" = [0x3D,0x27] := by decide
  have closing : str "'" = [0x27] := by decide
  have value : 0x27::(quoted entry.2 ++ [0x27]) = Shell.quoted marks entry.2 := rfl
  simp [assignmentWord,Shell.writtenWord,Shell.Piece.written,opening,closing,value]

theorem words_written (first : Str × Str) (rest : List (Str × Str)) :
    words (first::rest) = 0x20::Shell.writtenCommand marks ((first::rest).map assignmentWord) := by
  induction rest generalizing first with
  | nil => simp [words,Shell.writtenCommand,assignmentWord_written]
  | cons next later ih =>
    have split : Shell.writtenCommand marks ((first::next::later).map assignmentWord) =
        Shell.writtenWord marks (assignmentWord first) ++ 0x20::Shell.writtenCommand marks ((next::later).map assignmentWord) := by
      simp [Shell.writtenCommand,List.intercalate,marks]
    rw [split,← ih next,assignmentWord_written]
    simp [words]

theorem words_ended (first : Str × Str) (rest : List (Str × Str)) :
    ∃ text, words (first::rest) = 0x20::(text ++ [0x27]) := by
  have closing : str "'" = [0x27] := by decide
  induction rest generalizing first with
  | nil => exact ⟨first.1 ++ str "='" ++ quoted first.2,by simp [words,closing]⟩
  | cons next later ih =>
    obtain ⟨text,same⟩ := ih next
    refine ⟨first.1 ++ str "='" ++ quoted first.2 ++ str "'" ++ 0x20::text,?_⟩
    rw [words,List.flatMap_cons,← words,same]
    simp

theorem assignmentWord_proper {entry : Str × Str} (named : isIdentifier entry.1 = true) :
    ∀ piece ∈ assignmentWord entry, piece.Proper marks ∧ piece.Plain isPlain := by
  have proper := (exportCommand_proper named).2 _ (List.mem_cons_of_mem _ List.mem_cons_self)
  have plain := exportCommand_plain named _ (List.mem_cons_of_mem _ List.mem_cons_self)
  exact fun piece member => ⟨proper.2 piece member,plain piece member⟩

theorem assignments_words (named : ∀ entry ∈ pairs, isIdentifier entry.1 = true) :
    assignments (captured (unspaced (words pairs) ++ str "\n")) = some pairs := by
  cases pairs with
  | nil => decide
  | cons first rest =>
    have bare : unspaced (words (first::rest)) = Shell.writtenCommand marks ((first::rest).map assignmentWord) := by
      rw [words_written]
      rfl
    have proper : Shell.Proper marks ((first::rest).map assignmentWord) := by
      refine ⟨by simp,fun word member => ?_⟩
      obtain ⟨entry,own,rfl⟩ := List.mem_map.mp member
      exact ⟨by simp [assignmentWord],fun piece within => (assignmentWord_proper (named entry own) piece within).1⟩
    have plain : ∀ word ∈ (first::rest).map assignmentWord, ∀ piece ∈ word, piece.Plain isPlain := by
      intro word member piece within
      obtain ⟨entry,own,rfl⟩ := List.mem_map.mp member
      exact (assignmentWord_proper (named entry own) piece within).2
    have ended : ∀ u ∈ (unspaced (words (first::rest))).getLast?, u ≠ 0x0A := by
      obtain ⟨text,same⟩ := words_ended first rest
      rw [same,unspaced,List.head?_cons,if_pos rfl,List.tail_cons,List.getLast?_concat]
      rintro u ⟨⟩
      decide
    have clean := @Shell.clean_written _ _ marks isPlain [] _ (by simp) proper (by simp) plain
    have read := @Shell.commands_written _ _ marks [] _ (by simp) proper
    rw [List.flatMap_nil,List.nil_append] at clean read
    rw [captured_ended ended,bare,assignments,plainCommands,if_pos clean,read]
    change (((first::rest).map assignmentWord).map Shell.wordText).mapM assignedWord = _
    rw [List.map_map,List.mapM_map,mapM_some (g := id),List.map_id]
    intro entry member
    have word : Shell.wordText (assignmentWord entry) = entry.1 ++ 0x3D::entry.2 := by
      simp [assignmentWord,Shell.wordText,Shell.Piece.text]
    rw [Function.comp_apply,Function.comp_apply,word,assignedWord_entry (named entry member),id]

end Words

/-! ## What is gathered -/

theorem captured_single {s : Str} (single : 0x0A ∉ s) : captured s = s := by
  have own : ∀ u ∈ s.reverse, newline u = false := fun u member => single_free single u (List.mem_reverse.mp member)
  rw [captured]
  cases reversed : s.reverse with
  | nil => simpa using reversed.symm
  | cons u rest =>
    rw [List.dropWhile_cons_of_neg (by simp [own u (by simp [reversed])]),← reversed,List.reverse_reverse]

section Gathered
variable {sh : Interpreter} {tree : Tree} {custom : Str}

theorem report_filled (report : Report) : report.text ≠ [] := by simp [Report.text,tagged]

theorem gathered_reports (valid : validate sh tree.toPresets custom = .ok ()) {k : Str} (filled : k ≠ []) :
    gathered (captured (resolveAll sh tree.toPresets custom)) k =
      ((reports sh tree.toPresets custom).filter fun report => report.key = k).flatMap Report.value := by
  have stop : str "\n" = [0x0A] := by decide
  have single : ∀ line ∈ (reports sh tree.toPresets custom).map Report.text, 0x0A ∉ line := by
    intro line member
    obtain ⟨report,own,rfl⟩ := List.mem_map.mp member
    exact (reports_whole report own).single
  have lines : ((records newline (captured (resolveAll sh tree.toPresets custom) ++ str "\n")).filter fun line =>
      before 0x09 line = k) =
      ((reports sh tree.toPresets custom).map Report.text).filter fun line => before 0x09 line = k := by
    rw [resolveAll_reports fun scope member => (validated_scopes valid scope member).2,stop]
    by_cases none : (reports sh tree.toPresets custom).map Report.text = []
    · have empty : records newline (captured (written 0x0A []) ++ [0x0A]) = [[]] := by decide
      have other : before 0x09 [] ≠ k := Ne.symm filled
      rw [none,empty]
      simp [other]
    · rw [captured_written single _ none,records_lines_written single]
      intro line member
      obtain ⟨report,_,rfl⟩ := List.mem_map.mp member
      exact report_filled report
  have reported {report : Report} (member : report ∈ reports sh tree.toPresets custom) :
      before 0x09 report.text = report.key ∧ beforeLast 0x09 (after 0x09 report.text) = report.value :=
    Prod.mk.inj (reported_tagged (reports_whole report member).untabbed (reports_source valid report member))
  rw [gathered,lines,List.filter_map,List.flatMap_map]
  have keys : (reports sh tree.toPresets custom).filter ((fun line => decide (before 0x09 line = k)) ∘ Report.text) =
      (reports sh tree.toPresets custom).filter fun report => report.key = k := by
    refine List.filter_congr fun report member => ?_
    rw [Function.comp_apply,(reported member).1]
  rw [keys,captured_single]
  · exact List.flatMap_congr fun report member => (reported (List.mem_of_mem_filter member)).2
  · intro inside
    obtain ⟨report,own,within⟩ := List.mem_flatMap.mp inside
    have member := List.mem_of_mem_filter own
    rw [(reported member).2] at within
    exact (reports_whole report member).value within

/-- The keys whose value is not empty, with their values. -/
def nonempty (value : Str → Str) (keys : List Str) : List (Str × Str) :=
  keys.filterMap fun k => if value k = [] then none else some (k,value k)

theorem mem_nonempty {value : Str → Str} {keys : List Str} {k v : Str} :
    (k,v) ∈ nonempty value keys ↔ k ∈ keys ∧ value k = v ∧ v ≠ [] := by
  rw [nonempty,List.mem_filterMap]
  constructor
  · rintro ⟨k',own,same⟩
    split_ifs at same with empty
    obtain ⟨rfl,rfl⟩ := Prod.mk.inj (Option.some.inj same)
    exact ⟨own,rfl,empty⟩
  · rintro ⟨own,rfl,filled⟩
    exact ⟨k,own,if_neg filled⟩

theorem nonempty_iff {value other : Str → Str} {keys : List Str} :
    nonempty value keys = nonempty other keys ↔ ∀ k ∈ keys, value k = other k := by
  constructor
  · intro same k own
    have members (v : Str) : value k = v ∧ v ≠ [] ↔ other k = v ∧ v ≠ [] := by
      have both := congrArg (fun pairs => (k,v) ∈ pairs) same
      simpa [mem_nonempty,own] using both
    by_cases empty : value k = []
    · by_contra apart
      have filled : other k ≠ [] := fun none => apart (empty.trans none.symm)
      exact filled (((members (other k)).mpr ⟨rfl,filled⟩).1.symm.trans empty)
    · exact (((members (value k)).mp ⟨rfl,empty⟩).1).symm
  · intro same
    rw [nonempty,nonempty]
    exact List.filterMap_congr fun k own => by rw [same k own]

theorem carried_words (res : Str) : carried res = words (nonempty (gathered res) actionKeys) := by
  rw [carried]
  induction actionKeys with
  | nil => rfl
  | cons k rest ih =>
    rw [List.flatMap_cons,ih]
    by_cases empty : gathered res k = []
    · simp [nonempty,empty]
    · simp [nonempty,words,empty]

theorem actionKeys_named : ∀ k ∈ actionKeys, isIdentifier k = true := by decide +kernel

theorem actionEnvLine_ok (valid : validate sh tree.toPresets custom = .ok ()) :
    actionEnvLine sh tree.toPresets custom =
      .ok (unspaced (carried (captured (resolveAll sh tree.toPresets custom))) ++ str "\n") := by
  rw [actionEnvLine,valid]
  rfl

theorem actionEnvLine_valid {out : Str} (prints : actionEnvLine sh tree.toPresets custom = .ok out) :
    validate sh tree.toPresets custom = .ok () := by
  cases valid : validate sh tree.toPresets custom with
  | error message =>
    rw [actionEnvLine,valid] at prints
    cases prints
  | ok _ => rfl

theorem assignments_line {out : Str} (prints : actionEnvLine sh tree.toPresets custom = .ok out) :
    assignments (captured out) = some (nonempty (gathered (captured (resolveAll sh tree.toPresets custom))) actionKeys) := by
  rw [actionEnvLine,actionEnvLine_valid prints] at prints
  obtain rfl := Except.ok.inj prints
  rw [carried_words,assignments_words]
  rintro ⟨k,v⟩ member
  exact actionKeys_named k (mem_nonempty.mp member).1

end Gathered

/-! ## The effective values -/

/-- The last custom value, else the preset's. -/
def effective (layer : List (Str × Str)) (k : Str) : Str := (last layer k).getD (presetValue layer k)

section Shipped
variable {sh : Interpreter} {aliases : Aliases} {path text : Str}

theorem scopeReports_shipped {scope : Str} (settled : Settled sh (aliases.tree path).toPresets (parseEnvfile text) scope) :
    ∃ part ∈ sections, ∃ value, aliases.place scope = some part.1 ∧ column (levelOf (divided text) scope) = some value ∧
      (scopeReports sh (aliases.tree path).toPresets (parseEnvfile text) scope).map (fun report => (report.key,report.value)) =
        part.2.map fun row => (str row.key,(last (divided text) (str row.key)).getD (str (value row))) := by
  obtain ⟨level,preset,found,held⟩ := settled
  obtain ⟨own,place,lines⟩ := Option.bind_eq_some_iff.mp held
  obtain ⟨rows,value,rowed,column,same⟩ := presetLines_settings lines
  have same' := (aliases.tree path).divided held
  rw [scopeReports,found]
  rw [parseEnvfile_divided] at found
  have there : (aliases.tree path).directory scope = true := Option.isSome_of_eq_some place
  obtain ⟨rfl,_,_⟩ := levelFor_ok (divided_legible text) ((aliases.tree path).spoken scope there)
    ((aliases.tree path).single there) found
  refine ⟨(own,rows),rowsOf_mem rowed,value,place,column,?_⟩
  simp only [held,Option.elim_some,same',same,List.map_map]
  refine List.map_congr_left fun row _ => ?_
  simp only [Function.comp_apply,customGet_text]
  cases last (divided text) (str row.key) <;> rfl

theorem scopes_text (sh : Interpreter) (tree : Tree) (text : Str) : scopes sh tree.toPresets (parseEnvfile text) =
    str "core"::(listedNames sh (profilesOf (divided text))).takeWhile tree.directory := by
  rw [scopes_tree,profiles_text]

end Shipped

/-- The values that a list has for a key, one after the other. -/
def joined (k : Str) (pairs : List (Str × Str)) : Str := (pairs.filter fun entry => entry.1 = k).flatMap Prod.snd

section Joined
variable {k : Str} {pairs : List (Str × Str)}

theorem joined_append (k : Str) (pairs others : List (Str × Str)) : joined k (pairs ++ others) = joined k pairs ++ joined k others := by
  simp [joined]

theorem joined_flatMap {α : Type} (k : Str) (items : List α) (pairs : α → List (Str × Str)) :
    joined k (items.flatMap pairs) = items.flatMap fun item => joined k (pairs item) := by
  induction items with
  | nil => rfl
  | cons item rest ih => rw [List.flatMap_cons,joined_append,ih,List.flatMap_cons]

theorem joined_none (none : ∀ entry ∈ pairs, entry.1 ≠ k) : joined k pairs = [] := by
  have empty : (pairs.filter fun entry => entry.1 = k) = [] :=
    List.filter_eq_nil_iff.mpr fun entry member => by simpa using none entry member
  rw [joined,empty,List.flatMap_nil]

theorem joined_row {rows : List Row} (once : (rows.map fun row => str row.key).Nodup) {row : Row} (member : row ∈ rows)
    (value : Row → Str) : joined (str row.key) (rows.map fun row => (str row.key,value row)) = value row := by
  induction rows with
  | nil => cases member
  | cons first rest ih =>
    obtain ⟨apart,once⟩ := List.nodup_cons.mp once
    rw [List.map_cons,← List.singleton_append,joined_append]
    rcases List.mem_cons.mp member with rfl | later
    · rw [@joined_none _ (rest.map _),List.append_nil]
      · simp [joined]
      · intro entry inside same
        obtain ⟨other,within,rfl⟩ := List.mem_map.mp inside
        exact apart (List.mem_map.mpr ⟨other,within,same⟩)
    · have other : str first.key ≠ str row.key := fun same => apart (List.mem_map.mpr ⟨row,later,same.symm⟩)
      rw [ih once later,@joined_none _ [_],List.nil_append]
      simpa using other

end Joined

section Exact
variable {sh : Interpreter} {aliases : Aliases} {path text : Str}
  (valid : validate sh (aliases.tree path).toPresets (parseEnvfile text) = .ok ())

/-- The names that are read as profiles. -/
def readNames (sh : Interpreter) (aliases : Aliases) (layer : List (Str × Str)) : List Str :=
  (listedNames sh (profilesOf layer)).takeWhile fun name => (aliases.place name).isSome

def scopePairs (sh : Interpreter) (aliases : Aliases) (path text scope : Str) : List (Str × Str) :=
  (scopeReports sh (aliases.tree path).toPresets (parseEnvfile text) scope).map fun report => (report.key,report.value)

theorem presetKeys_shipped {k : Str} : k ∈ presetKeys (aliases.tree path).toPresets ↔
    ∃ part ∈ sections, ∃ row ∈ part.2, str row.key = k := by
  have same : presetKeys (aliases.tree path).toPresets = presetKeys (shipped path).toPresets := rfl
  rw [same,mem_presetKeys,defines_iff]

include valid

theorem read_settled {scope : Str} (member : scope ∈ str "core"::readNames sh aliases (divided text)) :
    Settled sh (aliases.tree path).toPresets (parseEnvfile text) scope :=
  (validated_scopes valid scope (by rw [scopes_text]; exact member)).2

theorem gathered_joined {k : Str} (filled : k ≠ []) :
    gathered (captured (resolveAll sh (aliases.tree path).toPresets (parseEnvfile text))) k =
      (str "core"::readNames sh aliases (divided text)).flatMap (fun scope => joined k (scopePairs sh aliases path text scope)) ++
        joined k ((extraReports (aliases.tree path).toPresets (parseEnvfile text)).map fun report =>
          (report.key,report.value)) := by
  have pairs : ((reports sh (aliases.tree path).toPresets (parseEnvfile text)).filter fun report => report.key = k).flatMap
      Report.value = joined k ((reports sh (aliases.tree path).toPresets (parseEnvfile text)).map fun report =>
        (report.key,report.value)) := by
    rw [joined,List.filter_map,List.flatMap_map]
    rfl
  rw [gathered_reports valid filled,pairs,reports,List.map_append,joined_append,scopes_text,List.map_flatMap,joined_flatMap]
  rfl

section Core
variable {row : Row} (member : row ∈ coreRows)
include member

omit valid in
theorem effective_core {value : Row → String} (level : column (levelOf (divided text) (str "core")) = some value) :
    effective (divided text) (str row.key) = (last (divided text) (str row.key)).getD (str (value row)) := by
  rw [effective,presetValue_row level member]

omit valid in
/-- A name that leads to core brings the value again, and no other brings any. -/
theorem joined_scope {scope : Str} (settled : Settled sh (aliases.tree path).toPresets (parseEnvfile text) scope) :
    ∃ value, column (levelOf (divided text) scope) = some value ∧ joined (str row.key) (scopePairs sh aliases path text scope) =
      if aliases.place scope = some (str "core") then (last (divided text) (str row.key)).getD (str (value row)) else [] := by
  obtain ⟨part,own,value,place,level,pairs⟩ := scopeReports_shipped settled
  refine ⟨value,level,?_⟩
  rw [scopePairs,pairs,place]
  have core : (str "core",coreRows) ∈ sections := List.mem_cons_self
  by_cases same : part = (str "core",coreRows)
  · subst same
    have once := (List.nodup_flatMap.mp keys_nodup).1 _ core
    rw [if_pos rfl,joined_row once member]
  · have other : ¬ (some part.1 = some (str "core")) := by
      intro name
      have parts : rowsOf part.1 = some part.2 := rowsOf_part own
      rw [Option.some.inj name] at parts
      exact same (Prod.ext (Option.some.inj name) (Option.some.inj parts).symm)
    rw [if_neg other]
    refine joined_none fun entry inside key => ?_
    obtain ⟨row',within,rfl⟩ := List.mem_map.mp inside
    have keys : str row'.key = str row.key := key
    have apart := keys_disjoint own core same (List.mem_map_of_mem within)
    rw [keys] at apart
    exact apart (List.mem_map_of_mem member)

omit valid in
theorem joined_extras : joined (str row.key) ((extraReports (aliases.tree path).toPresets (parseEnvfile text)).map fun report =>
    (report.key,report.value)) = [] := by
  refine joined_none fun entry inside key => ?_
  obtain ⟨report,extra,rfl⟩ := List.mem_map.mp inside
  rw [extraReports_text] at extra
  obtain ⟨own,within,rfl⟩ := List.mem_map.mp extra
  have unknown : own.1 ∉ presetKeys (aliases.tree path).toPresets := by simpa using (List.mem_filter.mp within).2
  exact unknown (presetKeys_shipped.mpr ⟨_,List.mem_cons_self,row,member,key.symm⟩)

omit valid member in
theorem value_empty (filled : str row.strict ≠ [] ∧ str row.default ≠ [] ∧ str row.loose ≠ []) {scope scope' : Str}
    {value value' : Row → String} (level : column scope = some value) (level' : column scope' = some value') :
    (last (divided text) (str row.key)).getD (str (value row)) = [] ↔
      (last (divided text) (str row.key)).getD (str (value' row)) = [] := by
  have some {scope : Str} {value : Row → String} (level : column scope = some value) : str (value row) ≠ [] := by
    rw [column] at level
    split_ifs at level <;> obtain rfl := Option.some.inj level
    · exact filled.1
    · exact filled.2.1
    · exact filled.2.2
  cases last (divided text) (str row.key) with
  | none => simp [some level,some level']
  | some v => simp

theorem gathered_core (filled : str row.strict ≠ [] ∧ str row.default ≠ [] ∧ str row.loose ≠ []) :
    gathered (captured (resolveAll sh (aliases.tree path).toPresets (parseEnvfile text))) (str row.key) =
        effective (divided text) (str row.key) ↔
      (∀ name ∈ readNames sh aliases (divided text), aliases.place name ≠ some (str "core")) ∨
        effective (divided text) (str row.key) = [] := by
  have core : (str "core",coreRows) ∈ sections := List.mem_cons_self
  have key : str row.key ≠ [] := identifier_ne_nil (rows_proper _ core row member).1.1
  obtain ⟨value,level,own⟩ := joined_scope member (validated_core valid).2
  have first := effective_core member level
  rw [aliases.own _ core,if_pos rfl,← first] at own
  rw [gathered_joined valid key,List.flatMap_cons,own,joined_extras member,List.append_nil,List.append_right_eq_self,
    List.flatMap_eq_nil_iff]
  have each : ∀ name ∈ readNames sh aliases (divided text), joined (str row.key) (scopePairs sh aliases path text name) = [] ↔
      aliases.place name ≠ some (str "core") ∨ effective (divided text) (str row.key) = [] := by
    intro name inside
    obtain ⟨value',level',again⟩ := joined_scope member (read_settled valid (List.mem_cons_of_mem _ inside))
    rw [again,first]
    split_ifs with same
    · simp [same,value_empty filled level level']
    · simp [same]
  constructor
  · intro empty
    by_cases none : effective (divided text) (str row.key) = []
    · exact Or.inr none
    · exact Or.inl fun name inside => ((each name inside).mp (empty name inside)).resolve_right none
  · rintro (apart | none)
    · exact fun name inside => (each name inside).mpr (Or.inl (apart name inside))
    · exact fun name inside => (each name inside).mpr (Or.inr none)

end Core

omit valid in
theorem pin_unknown : ∀ part ∈ sections, ∀ row ∈ part.2, str row.key ≠ pinDir :=
  keys_other (by simp [sections,coreRows,httpRows,strfryRows,tcpRows])

omit valid in
theorem effective_pin (layer : List (Str × Str)) : effective layer pinDir = (last layer pinDir).getD [] := by
  have none : presetValue layer pinDir = [] := by
    rw [presetValue]
    cases lines : presetLines (str "core") (levelOf layer (str "core")) with
    | none => rfl
    | some preset =>
      obtain ⟨rows,value,own,_,same⟩ := presetLines_entries lines
      have missing : ¬ (last (entries preset) pinDir).isSome := by
        rw [last_isSome,same,keys_entries,List.mem_map]
        rintro ⟨row,within,key⟩
        exact pin_unknown _ (rowsOf_mem own) row within key
      rw [Option.getD_some,Option.not_isSome_iff_eq_none.mp missing,Option.getD_none]
  rw [effective,none]

omit valid in
theorem joined_pin : joined pinDir ((extraReports (aliases.tree path).toPresets (parseEnvfile text)).map fun report =>
      (report.key,report.value)) =
    ((divided text).filter fun entry => entry.1 = pinDir).flatMap fun _ => effective (divided text) pinDir := by
  have unknown : pinDir ∉ presetKeys (aliases.tree path).toPresets := by
    intro known
    obtain ⟨part,own,row,within,key⟩ := presetKeys_shipped.mp known
    exact pin_unknown part own row within key
  rw [extraReports_text,List.map_map,joined,List.filter_map,List.filter_filter,List.flatMap_map]
  have kept : ((divided text).filter fun entry => decide (entry.1 = pinDir) &&
      !(presetKeys (aliases.tree path).toPresets).contains entry.1) = (divided text).filter fun entry => entry.1 = pinDir := by
    refine List.filter_congr fun entry _ => ?_
    by_cases own : entry.1 = pinDir
    · simp [own,unknown]
    · simp [own]
  refine (congrArg _ kept).trans (List.flatMap_congr fun entry member => ?_)
  have own : entry.1 = pinDir := by simpa using (List.mem_filter.mp member).2
  rw [effective_pin,← own]
  rfl

/-- A key of no preset is gathered as often as it is set. -/
theorem gathered_pin : gathered (captured (resolveAll sh (aliases.tree path).toPresets (parseEnvfile text))) pinDir =
      effective (divided text) pinDir ↔
    effective (divided text) pinDir = [] ∨ ((divided text).filter fun entry => entry.1 = pinDir).length ≤ 1 := by
  have scopes : (str "core"::readNames sh aliases (divided text)).flatMap
      (fun scope => joined pinDir (scopePairs sh aliases path text scope)) = [] := by
    refine List.flatMap_eq_nil_iff.mpr fun scope member => ?_
    obtain ⟨part,own,value,_,_,pairs⟩ := scopeReports_shipped (read_settled valid member)
    rw [scopePairs,pairs]
    refine joined_none fun entry inside => ?_
    obtain ⟨row,within,rfl⟩ := List.mem_map.mp inside
    exact pin_unknown part own row within
  have unset : (divided text).filter (fun entry => entry.1 = pinDir) = [] → effective (divided text) pinDir = [] := by
    intro none
    have missing : ¬ (last (divided text) pinDir).isSome := by
      rw [last_isSome,List.mem_map]
      rintro ⟨entry,own,key⟩
      exact List.filter_eq_nil_iff.mp none entry own (by simpa using key)
    rw [effective_pin,Option.not_isSome_iff_eq_none.mp missing,Option.getD_none]
  rw [gathered_joined valid (by decide),scopes,List.nil_append,joined_pin]
  cases set : (divided text).filter fun entry => entry.1 = pinDir with
  | nil => simp [unset set]
  | cons first rest =>
    rw [List.flatMap_cons,List.append_right_eq_self,List.flatMap_eq_nil_iff]
    cases rest with
    | nil => simp
    | cons next later =>
      constructor
      · exact fun empty => Or.inl (empty next List.mem_cons_self)
      · rintro (none | one)
        · exact fun _ _ => none
        · exact absurd one (by simp)

end Exact

def pinned : Str := str "SHIELD_GUARD_PIN_DIR=/run/it's `$(id)`"

end FipsShield.Config
