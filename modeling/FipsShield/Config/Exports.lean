import FipsShield.Config.Assignments
import FipsShield.Config.Tree

/-! What a shell makes of the lines that `resolve --shell` prints of any env file. -/
namespace FipsShield.Config
open Text Lines Banlist

/-! ## What is told of a layer -/

/-- The keys and values of the lines that `resolve` prints. -/
def told (out : Str) : List (Str × Str) := (records newline out).map fun line => (before 0x3D line,after 0x3D line)

section Told
variable {sh : Interpreter} {tree : Tree} {text : Str}

/-- What is reported is of a preset that sets identifiers, or it is the last value of a key of the file. -/
theorem report_cases {report : Report} (member : report ∈ reports sh tree.toPresets (parseEnvfile text)) :
    isIdentifier report.key = true ∧ report.key ≠ str "SHIELD_PROFILES" ∨
      ∃ entry ∈ divided text, report.key = entry.1 ∧ report.value = (last (divided text) entry.1).getD [] := by
  rcases List.mem_append.mp member with read | extra
  · obtain ⟨scope,_,within⟩ := List.mem_flatMap.mp read
    rw [scopeReports] at within
    cases found : levelFor sh scope (parseEnvfile text) with
    | error message => simp [found] at within
    | ok level =>
      simp only [found] at within
      obtain ⟨entry,own,rfl⟩ := List.mem_map.mp within
      cases held : tree.file scope level with
      | none => simp [held] at own
      | some preset =>
        rw [held,Option.elim_some,tree.divided held] at own
        have named := tree.named scope level preset held entry own
        cases customGet entry.1 (parseEnvfile text) <;> exact Or.inl named
  · rw [extraReports_text] at extra
    obtain ⟨entry,own,rfl⟩ := List.mem_map.mp extra
    exact Or.inr ⟨entry,List.mem_of_mem_filter own,rfl,rfl⟩

theorem told_reports (valid : validate sh tree.toPresets (parseEnvfile text) = .ok ()) {out : Str}
    (resolves : resolve sh tree.toPresets false (parseEnvfile text) = .ok out) :
    told out = (reports sh tree.toPresets (parseEnvfile text)).map fun report => (report.key,report.value) := by
  rw [resolve_ok valid] at resolves
  obtain rfl := Except.ok.inj resolves
  rw [told,records_lines_written,List.map_map]
  · refine List.map_congr_left fun report member => ?_
    have sign : 0x3D ∉ report.key := by
      rcases report_cases member with ⟨named,_⟩ | ⟨entry,own,same,_⟩
      · exact (identifier_stops named).2.2
      · exact same ▸ divided_key own
    have line : assignment false (report.key,report.value) = report.key ++ 0x3D::report.value := rfl
    rw [Function.comp_apply,line,before_stop sign,after_stop sign]
  · intro line member
    obtain ⟨report,own,rfl⟩ := List.mem_map.mp member
    have whole := reports_whole report own
    simp [assignment,whole.key,whole.value]

end Told

section Shielded
variable {sh evaluator : Interpreter} {tree : ShieldTree} {text : Str}

theorem presetKeys_shield {k : Str} (known : k ∈ presetKeys tree.toPresets) : isIdentifier k = true ∧ shieldKey k = true := by
  refine ⟨presetKeys_named tree.presets_named known,?_⟩
  obtain ⟨text,within,inside⟩ := List.mem_flatMap.mp known
  obtain ⟨entry,own,rfl⟩ := List.mem_map.mp inside
  obtain ⟨scope,held⟩ := tree.files text within
  exact tree.shielded scope _ text held entry own

/-- What is reported is of a `SHIELD_` key, or it is the last value of a key of the file. -/
theorem report_shield {report : Report} (member : report ∈ reports sh tree.toPresets (parseEnvfile text)) :
    isIdentifier report.key = true ∧ shieldKey report.key = true ∨ last (divided text) report.key = some report.value := by
  rcases List.mem_append.mp member with read | extra
  · obtain ⟨scope,_,within⟩ := List.mem_flatMap.mp read
    rw [scopeReports] at within
    cases found : levelFor sh scope (parseEnvfile text) with
    | error message => simp [found] at within
    | ok level =>
      simp only [found] at within
      obtain ⟨entry,own,rfl⟩ := List.mem_map.mp within
      cases held : tree.file scope level with
      | none => simp [held] at own
      | some preset =>
        rw [held,Option.elim_some,tree.divided held] at own
        have named := (tree.named scope level preset held entry own).1
        have shield := tree.shielded scope level preset held entry own
        cases customGet entry.1 (parseEnvfile text) <;> exact Or.inl ⟨named,shield⟩
  · rw [extraReports_text] at extra
    obtain ⟨entry,own,rfl⟩ := List.mem_map.mp extra
    obtain ⟨v,found⟩ := Option.isSome_iff_exists.mp (last_isSome.mpr (List.mem_map_of_mem (List.mem_of_mem_filter own)))
    exact Or.inr (by simp [found])

theorem reports_taken : (∀ report ∈ reports sh tree.toPresets (parseEnvfile text), evaluator.takes report.key report.value = true) ↔
    ∀ k v, last (divided text) k = some v → evaluator.takes k v = true := by
  constructor
  · intro taken k v found
    by_cases known : k ∈ presetKeys tree.toPresets
    · obtain ⟨named,shield⟩ := presetKeys_shield known
      exact evaluator.shield k v named shield
    · have other : (k,v) ∈ (divided text).filter fun entry => !(presetKeys tree.toPresets).contains entry.1 :=
        List.mem_filter.mpr ⟨last_mem found,by simpa using known⟩
      have extra : (⟨k,v,str "custom"⟩ : Report) ∈ extraReports tree.toPresets (parseEnvfile text) := by
        rw [extraReports_text]
        refine List.mem_map.mpr ⟨(k,v),other,?_⟩
        rw [found]
        rfl
      exact taken _ (List.mem_append_right _ extra)
  · intro taken report member
    rcases report_shield member with ⟨named,shield⟩ | own
    · exact evaluator.shield _ _ named shield
    · exact taken _ _ own

theorem exports_reports (valid : validate sh tree.toPresets (parseEnvfile text) = .ok ()) {out' : Str}
    (shell : resolve sh tree.toPresets true (parseEnvfile text) = .ok out') :
    exports evaluator (captured out') =
        some ((reports sh tree.toPresets (parseEnvfile text)).map fun report => (report.key,report.value)) ↔
      ∀ k v, last (divided text) k = some v → evaluator.takes k v = true := by
  rw [resolve_ok valid] at shell
  obtain rfl := Except.ok.inj shell
  rw [← @reports_taken sh evaluator tree text]
  constructor
  · intro assigns report member
    exact exports_taken assigns _ (List.mem_map_of_mem member)
  · intro taken
    have read := @exports_assignments evaluator
      ((reports sh tree.toPresets (parseEnvfile text)).map fun report => (report.key,report.value))
    rw [List.map_map] at read
    refine read fun entry member => ?_
    obtain ⟨report,own,rfl⟩ := List.mem_map.mp member
    exact taken report own

/-- What a shell assigns is what `resolve` tells, and nothing else is done, exactly where it takes
the last value of every key of the file. -/
theorem shell_exact_iff (sh evaluator : Interpreter) (tree : ShieldTree) (text out out' : Str)
    (resolves : resolve sh tree.toPresets false (parseEnvfile text) = .ok out)
    (shell : resolve sh tree.toPresets true (parseEnvfile text) = .ok out') :
    exports evaluator (captured out') = some (told out) ↔
      ∀ k v, last (divided text) k = some v → evaluator.takes k v = true := by
  have valid := (resolve_valid resolves).1
  rw [told_reports valid resolves]
  exact exports_reports valid shell

end Shielded

def shippedShield : ShieldTree := ownNames.shieldTree (str "/presets")

def quotesText : Str := str "SHIELD_NOTE=it's `$(id)` \\ \"x\"\nOPTIND=7"

theorem shell_exact_quotes : ∃ out out', resolve plainShell shippedShield.toPresets false (parseEnvfile quotesText) = .ok out ∧
    resolve plainShell shippedShield.toPresets true (parseEnvfile quotesText) = .ok out' ∧
    exports plainShell (captured out') = some (told out) := by
  have valid : validate plainShell shippedShield.toPresets (parseEnvfile quotesText) = .ok () := by decide +kernel
  have plain := resolve_ok valid false
  have shell := resolve_ok valid true
  refine ⟨_,_,plain,shell,(shell_exact_iff _ _ _ _ _ _ plain shell).mpr fun k v found => ?_⟩
  have each : ∀ entry ∈ divided quotesText, plainShell.takes entry.1 entry.2 = true := by decide +kernel
  exact each (k,v) (last_mem found)

/-- Only the first unit of a key is looked at, and the key is not quoted. -/
theorem shell_runs_key : ¬ ∀ (sh evaluator : Interpreter) (tree : ShieldTree) (text out out' : Str),
    resolve sh tree.toPresets false (parseEnvfile text) = .ok out →
    resolve sh tree.toPresets true (parseEnvfile text) = .ok out' → exports evaluator (captured out') = some (told out) := by
  intro claim
  have valid : validate plainShell shippedShield.toPresets (parseEnvfile (str "A$(id)=x")) = .ok () := by
    decide +kernel
  have plain := resolve_ok valid false
  have shell := resolve_ok valid true
  have exact := claim plainShell plainShell _ _ _ _ plain shell
  rw [told_reports valid plain,exports_reports valid shell] at exact
  exact absurd (exact (str "A$(id)") (str "x") (by decide +kernel)) (by decide +kernel)

end FipsShield.Config
