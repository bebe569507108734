import FipsShield.Config.Presets

/-! Presets whose directories may have other names too: what `resolve_all` prints once the list
of profiles is validated. -/
namespace FipsShield.Config
open Text Lines Banlist

/-! ## The lines of a custom layer -/

section Custom
variable {custom k v : Str}

theorem customGet_single (found : customGet k custom = some v) : 0x0A ∉ v := by
  rw [customGet] at found
  obtain ⟨line,last,rfl⟩ := Option.map_eq_some_iff.mp found
  have single := records_single custom (List.mem_of_mem_filter (List.mem_of_getLast? last))
  have rest : 0x0A ∉ line.drop (k.length + 1) := fun inside => single (List.mem_of_mem_drop inside)
  rwa [captured_line rest]

theorem custom_value_single (single : 0x0A ∉ v) : 0x0A ∉ (customGet k custom).getD v := by
  cases found : customGet k custom with
  | none => exact single
  | some w => exact customGet_single found

theorem profiles_custom_single (custom : Str) : 0x0A ∉ profiles custom := by
  have default : (0x0A : UInt16) ∉ str "strfry" := by decide
  rw [profiles]
  split_ifs
  · exact default
  · exact custom_value_single default

theorem customGet_text (text k : Str) : customGet k (parseEnvfile text) = last (divided text) k := by
  rw [parseEnvfile_divided,customGet_layer (divided_legible text)]

theorem profiles_text (text : Str) : profiles (parseEnvfile text) = profilesOf (divided text) := by
  rw [profiles,customGet_text,profilesOf]

end Custom

/-! ## What is printed of a key -/

structure Report where
  key : Str
  value : Str
  source : Str

def Report.text (report : Report) : Str := tagged report.key report.value report.source

section Reports
variable (sh : Interpreter) (presets : Presets) (custom : Str)

def scopeReports (scope : Str) : List Report :=
  match levelFor sh scope custom with
  | .error _ => []
  | .ok level => ((presets.file scope level).elim [] divided).map fun entry =>
    match customGet entry.1 custom with
    | some v => ⟨entry.1,v,str "custom"⟩
    | none => ⟨entry.1,entry.2,str "preset:" ++ scope ++ str "/" ++ level⟩

def extraReports : List Report :=
  (((records newline custom).map (before 0x09)).filter fun k => !listed k (allPresetKeys presets)).map fun k =>
    ⟨k,(customGet k custom).getD [],str "custom"⟩

def reports : List Report := (scopes sh presets custom).flatMap (scopeReports sh presets custom) ++ extraReports presets custom

variable {sh} {presets} {custom}

theorem resolveScope_reports {scope : Str} (settled : Settled sh presets custom scope) :
    resolveScope sh presets custom scope = .ok (written 0x0A ((scopeReports sh presets custom scope).map Report.text)) := by
  obtain ⟨level,text,found,held⟩ := settled
  rw [resolveScope,scopeReports,found]
  simp only [bind,Except.bind,held,Option.elim_some,parseEnvfile_divided,tabbed_records (divided_legible text),List.map_map]
  refine congrArg (fun lines => Except.ok (written 0x0A lines)) (List.map_congr_left fun entry member => ?_)
  have untabbed := (divided_legible text entry member).2.1
  rw [Function.comp_apply,Function.comp_apply,before_tabbed untabbed,after_tabbed untabbed]
  cases customGet entry.1 custom <;> rfl

theorem resolveScopes_reports {extras : Str} {scopes : List Str} (settled : ∀ scope ∈ scopes, Settled sh presets custom scope) :
    resolveScopes sh presets custom extras scopes =
      written 0x0A ((scopes.flatMap (scopeReports sh presets custom)).map Report.text) ++ extras := by
  induction scopes with
  | nil => rfl
  | cons scope rest ih =>
    rw [resolveScopes,resolveScope_reports (settled scope (by simp)),List.flatMap_cons,List.map_append,written_append,
      List.append_assoc]
    exact congrArg _ (ih fun other member => settled other (by simp [member]))

theorem resolveAll_reports (settled : ∀ scope ∈ scopes sh presets custom, Settled sh presets custom scope) :
    resolveAll sh presets custom = written 0x0A ((reports sh presets custom).map Report.text) := by
  rw [resolveAll,resolveScopes_reports settled,reports,List.map_append,written_append,resolveExtras,extraReports,List.map_map]
  rfl

/-- A report is a line: its key ends at the first tab, and nothing in it ends the line. -/
structure Report.Whole (report : Report) : Prop where
  untabbed : 0x09 ∉ report.key
  key : 0x0A ∉ report.key
  value : 0x0A ∉ report.value
  source : 0x0A ∉ report.source

theorem Report.Whole.single {report : Report} (whole : report.Whole) : 0x0A ∉ report.text := by
  simp [Report.text,tagged,whole.key,whole.value,whole.source]

theorem scopes_single : ∀ scope ∈ scopes sh presets custom, 0x0A ∉ scope := fun _ member => records_single _ member

theorem custom_single : (0x0A : UInt16) ∉ str "custom" := by decide

theorem scopeReports_whole {scope : Str} (single : 0x0A ∉ scope) : ∀ report ∈ scopeReports sh presets custom scope, report.Whole := by
  intro report member
  rw [scopeReports] at member
  cases found : levelFor sh scope custom with
  | error message => simp [found] at member
  | ok level =>
    simp only [found] at member
    obtain ⟨entry,own,rfl⟩ := List.mem_map.mp member
    cases held : presets.file scope level with
    | none => simp [held] at own
    | some text =>
      rw [held] at own
      obtain ⟨_,untabbed,key,value⟩ := divided_legible text entry own
      cases given : customGet entry.1 custom with
      | some v => exact ⟨untabbed,key,customGet_single given,custom_single⟩
      | none =>
        have label : (0x0A : UInt16) ∉ str "preset:" ∧ (0x0A : UInt16) ∉ str "/" := by decide
        exact ⟨untabbed,key,value,by simp [label,single,(levelFor_level found).1]⟩

theorem extraReports_whole : ∀ report ∈ extraReports presets custom, report.Whole := by
  intro report member
  obtain ⟨k,within,rfl⟩ := List.mem_map.mp member
  obtain ⟨line,own,rfl⟩ := List.mem_map.mp (List.mem_of_mem_filter within)
  exact ⟨before_free 0x09 line,fun inside => records_single custom own (before_subset 0x09 line inside),
    custom_value_single (by simp),custom_single⟩

theorem reports_whole : ∀ report ∈ reports sh presets custom, report.Whole := by
  refine List.forall_mem_append.mpr ⟨fun report member => ?_,extraReports_whole⟩
  obtain ⟨scope,own,within⟩ := List.mem_flatMap.mp member
  exact scopeReports_whole (scopes_single scope own) report within

theorem reports_records (settled : ∀ scope ∈ scopes sh presets custom, Settled sh presets custom scope) :
    records newline (resolveAll sh presets custom) = (reports sh presets custom).map Report.text := by
  rw [resolveAll_reports settled,records_lines_written]
  intro line member
  obtain ⟨report,own,rfl⟩ := List.mem_map.mp member
  exact (reports_whole report own).single

end Reports

/-! ## A tree of presets -/

/-- `White_Space`, among the units of a text. -/
def isWhite (u : UInt16) : Bool :=
  (0x09 ≤ u && u ≤ 0x0D) || u == 0x20 || u == 0x85 || u == 0xA0 || u == 0x1680 || (0x2000 ≤ u && u ≤ 0x200A) ||
    u == 0x2028 || u == 0x2029 || u == 0x202F || u == 0x205F || u == 0x3000

/-- Presets that set identifiers but not the profiles, the same ones at each level, in directories
whose names are no patterns, have no white space, and come as they are out of every `echo`. -/
structure Tree extends Presets where
  spoken : ∀ name, directory name = true → Spoken name
  plain : ∀ name, directory name = true → ∀ u ∈ name, isWhite u = false ∧ isPattern u = false
  named : ∀ scope level text, file scope level = some text → ∀ entry ∈ settings text,
    isIdentifier entry.1 = true ∧ entry.1 ≠ str "SHIELD_PROFILES"
  known : ∀ scope level text, file scope level = some text → ∃ base, file scope (str "default") = some base ∧
    ∀ entry ∈ settings text, entry.1 ∈ (settings base).map Prod.fst
  files : ∀ text ∈ defaults, ∃ scope, file scope (str "default") = some text

/-- All the presets set begins with `SHIELD_`. -/
structure ShieldTree extends Tree where
  shielded : ∀ scope level text, file scope level = some text → ∀ entry ∈ settings text, shieldKey entry.1 = true

theorem divided_untabbed {text : Str} (untabbed : ∀ entry ∈ settings text, 0x09 ∉ entry.1) : divided text = settings text := by
  rw [divided]
  conv_rhs => rw [← List.map_id (settings text)]
  refine List.map_congr_left fun entry member => ?_
  rw [tabbed,before_stop (untabbed entry member),after_stop (untabbed entry member)]
  rfl

theorem divided_named {text : Str} (named : ∀ entry ∈ settings text, isIdentifier entry.1 = true) :
    divided text = settings text :=
  divided_untabbed fun entry member => (identifier_stops (named entry member)).2.1

section Tree
variable {sh : Interpreter} {tree : Tree} {custom : Str}

theorem Tree.divided {scope level text : Str} (held : tree.file scope level = some text) :
    Config.divided text = settings text :=
  divided_named fun entry member => (tree.named scope level text held entry member).1

theorem Tree.presets_named : tree.toPresets.Named := by
  intro text member entry own
  obtain ⟨scope,held⟩ := tree.files text member
  exact (tree.named scope _ text held entry own).1

theorem Tree.untabbed {name : Str} (there : tree.directory name = true) : 0x09 ∉ name := fun member => by
  have white := (tree.plain name there _ member).1
  exact absurd white (by decide)

theorem Tree.single {name : Str} (there : tree.directory name = true) : 0x0A ∉ name := fun member => by
  have white := (tree.plain name there _ member).1
  exact absurd white (by decide)

theorem Tree.unpatterned {name : Str} (there : tree.directory name = true) : name.any isPattern = false := by
  rw [List.any_eq_false]
  intro u member
  simp [(tree.plain name there u member).2]

/-- The scopes are core and the names that are read up to the first that is no directory. -/
theorem scopes_tree : scopes sh tree.toPresets custom =
    str "core"::(listedNames sh (profiles custom)).takeWhile tree.directory :=
  scopes_names fun name member => tree.spoken name (List.mem_takeWhile_imp member)

theorem core_scopes : str "core" ∈ scopes sh tree.toPresets custom := by
  rw [scopes_tree]
  exact List.mem_cons_self

theorem mem_scopes {scope : Str} (member : scope ∈ scopes sh tree.toPresets custom) :
    scope = str "core" ∨ scope ∈ listedNames sh (profiles custom) ∧ tree.directory scope = true := by
  rw [scopes_tree] at member
  rcases List.mem_cons.mp member with core | profile
  · exact Or.inl core
  · exact Or.inr ⟨(List.takeWhile_sublist _).subset profile,List.mem_takeWhile_imp profile⟩

theorem validated_name (valid : validate sh tree.toPresets custom = .ok ()) {name : Str}
    (own : name ∈ listedNames sh (profiles custom)) (there : tree.directory name = true) :
    Settled sh tree.toPresets custom name :=
  (validate_name valid own (tree.untabbed there) (tree.unpatterned there)).2

theorem validated_core (valid : validate sh tree.toPresets custom = .ok ()) :
    tree.directory (str "core") = true ∧ Settled sh tree.toPresets custom (str "core") :=
  validate_iff.mp valid _ List.mem_cons_self

theorem validated_scopes (valid : validate sh tree.toPresets custom = .ok ()) :
    ∀ scope ∈ scopes sh tree.toPresets custom, tree.directory scope = true ∧ Settled sh tree.toPresets custom scope := by
  intro scope member
  rcases mem_scopes member with rfl | ⟨own,there⟩
  · exact validated_core valid
  · exact ⟨there,validated_name valid own there⟩

theorem validated_records (valid : validate sh tree.toPresets custom = .ok ()) :
    records newline (resolveAll sh tree.toPresets custom) = (reports sh tree.toPresets custom).map Report.text :=
  reports_records fun scope member => (validated_scopes valid scope member).2

theorem reports_source (valid : validate sh tree.toPresets custom = .ok ()) :
    ∀ report ∈ reports sh tree.toPresets custom, 0x09 ∉ report.source := by
  have custom_untabbed : (0x09 : UInt16) ∉ str "custom" := by decide
  refine List.forall_mem_append.mpr ⟨fun report member => ?_,fun report member => ?_⟩
  · obtain ⟨scope,own,within⟩ := List.mem_flatMap.mp member
    obtain ⟨there,level,text,found,held⟩ := validated_scopes valid scope own
    rw [scopeReports,found] at within
    obtain ⟨entry,_,rfl⟩ := List.mem_map.mp within
    cases customGet entry.1 custom with
    | some v => exact custom_untabbed
    | none =>
      have label : (0x09 : UInt16) ∉ str "preset:" ∧ (0x09 : UInt16) ∉ str "/" := by decide
      simp [label,tree.untabbed there,(levelFor_level found).2]
  · obtain ⟨k,_,rfl⟩ := List.mem_map.mp member
    exact custom_untabbed

theorem resolve_ok (valid : validate sh tree.toPresets custom = .ok ()) (shell : Bool) :
    resolve sh tree.toPresets shell custom =
      .ok (written 0x0A ((reports sh tree.toPresets custom).map fun report => assignment shell (report.key,report.value))) := by
  have lines (report : Report) (member : report ∈ reports sh tree.toPresets custom) :
      assigned shell report.text = assignment shell (report.key,report.value) := by
    have own : reported report.text = (report.key,report.value) :=
      reported_tagged (reports_whole report member).untabbed (reports_source valid report member)
    rw [← own]
    rfl
  rw [resolve,valid,validated_records valid,List.map_map]
  exact congrArg (fun lines => Except.ok (written 0x0A lines)) (List.map_congr_left lines)

theorem listed_tree {k : Str} (filled : k ≠ []) (single : 0x0A ∉ k) :
    listed k (allPresetKeys tree.toPresets) = (presetKeys tree.toPresets).contains k := by
  rw [Bool.eq_iff_iff,listed_iff tree.presets_named filled single,List.contains_iff_mem]

/-- The other keys of any env file, each as often as it is set, with its last value. -/
theorem extraReports_text (text : Str) : extraReports tree.toPresets (parseEnvfile text) =
    ((Config.divided text).filter fun entry => !(presetKeys tree.toPresets).contains entry.1).map fun entry =>
      ⟨entry.1,(last (Config.divided text) entry.1).getD [],str "custom"⟩ := by
  have legible := divided_legible text
  rw [extraReports,parseEnvfile_divided,tabbed_records legible,keys_tabbed legible,List.filter_map,List.map_map]
  simp only [Function.comp_def,customGet_layer legible]
  congr 1
  refine List.filter_congr fun entry member => ?_
  obtain ⟨begins,_,single,_⟩ := legible entry member
  obtain ⟨u,rest,key,_⟩ := letter_head begins
  rw [listed_tree (by simp [key]) single]

end Tree

/-! ## The shipped presets -/

/-- The names that lead to a directory beside the presets, and which: the shipped ones do, each to
its own. -/
structure Aliases where
  place : Str → Option Str
  own : ∀ part ∈ sections, place part.1 = some part.1
  spoken : ∀ name, (place name).isSome = true → Spoken name
  plain : ∀ name, (place name).isSome = true → ∀ u ∈ name, isWhite u = false ∧ isPattern u = false

theorem presetLines_settings {scope level text : Str} (held : (presetLines scope level).map fileText = some text) :
    ∃ rows value, rowsOf scope = some rows ∧ column level = some value ∧
      settings text = rows.map fun row => (str row.key,str (value row)) := by
  obtain ⟨preset,lines,rfl⟩ := Option.map_eq_some_iff.mp held
  rw [settings_file]
  exact presetLines_entries lines

def Aliases.tree (aliases : Aliases) (path : Str) : Tree where
  path := path
  directory name := (aliases.place name).isSome
  file name level := (aliases.place name).bind fun scope => (presetLines scope level).map fileText
  defaults := sections.filterMap fun part => (presetLines part.1 (str "default")).map fileText
  spoken := aliases.spoken
  plain := aliases.plain
  named := by
    intro name level text held entry member
    obtain ⟨scope,_,held⟩ := Option.bind_eq_some_iff.mp held
    obtain ⟨rows,value,own,_,same⟩ := presetLines_settings held
    rw [same] at member
    obtain ⟨row,within,rfl⟩ := List.mem_map.mp member
    refine ⟨(rows_proper _ (rowsOf_mem own) row within).1.1,fun profiles => ?_⟩
    have other : ∀ part ∈ sections, ∀ row ∈ part.2, str row.key ≠ str "SHIELD_PROFILES" :=
      keys_other (by simp [sections,coreRows,httpRows,strfryRows,tcpRows])
    exact other _ (rowsOf_mem own) row within profiles
  known := by
    intro name level text held
    obtain ⟨scope,place,held⟩ := Option.bind_eq_some_iff.mp held
    obtain ⟨rows,value,own,_,same⟩ := presetLines_settings held
    have base : presetLines scope (str "default") =
        some (rows.map fun row => envLine (str row.key) (str row.default)) := by
      rw [presetLines,own]
      rfl
    obtain ⟨rows',value',own',_,same'⟩ := presetLines_settings (congrArg (Option.map fileText) base)
    obtain rfl := Option.some.inj (own.symm.trans own')
    refine ⟨_,by rw [place,Option.bind_some,base]; rfl,fun entry member => ?_⟩
    rw [same',keys_entries,← keys_entries value,← same]
    exact List.mem_map_of_mem member
  files := by
    intro text member
    obtain ⟨part,own,held⟩ := List.mem_filterMap.mp member
    exact ⟨part.1,by rw [aliases.own part own,Option.bind_some,held]⟩

def Aliases.shieldTree (aliases : Aliases) (path : Str) : ShieldTree where
  toTree := aliases.tree path
  shielded := by
    intro name level text held entry member
    obtain ⟨scope,_,held⟩ := Option.bind_eq_some_iff.mp held
    obtain ⟨rows,value,own,_,same⟩ := presetLines_settings held
    rw [same] at member
    obtain ⟨row,within,rfl⟩ := List.mem_map.mp member
    exact (rows_proper _ (rowsOf_mem own) row within).1.2.1

theorem sections_spoken : ∀ part ∈ sections, Spoken part.1 := by decide +kernel

/-- No other names than their own. -/
def ownNames : Aliases where
  place name := (rowsOf name).map fun _ => name
  own := by decide +kernel
  spoken := by
    intro name there
    rw [Option.isSome_map] at there
    obtain ⟨rows,own⟩ := Option.isSome_iff_exists.mp there
    exact sections_spoken _ (rowsOf_mem own)
  plain := by
    intro name there u member
    rw [Option.isSome_map] at there
    obtain ⟨rows,own⟩ := Option.isSome_iff_exists.mp there
    have plain : ∀ part ∈ sections, part.1.all (fun u => !isWhite u && !isPattern u) = true := by decide +kernel
    have each := List.all_eq_true.mp (plain _ (rowsOf_mem own)) u member
    rwa [Bool.and_eq_true,Bool.not_eq_true',Bool.not_eq_true'] at each

def shippedTree : Tree := ownNames.tree (str "/presets")

end FipsShield.Config
