import FipsShield.Config.Tree

/-! The two ways the resolver gets its custom layer, from an env file and from the
environment that the file gives. -/
namespace FipsShield.Config
open Text Lines Banlist

/-- Presets wherever they are, with keys that are identifiers and begin with `SHIELD_`. -/
structure Installed extends Install where
  shielded : ∀ dir presets, tree dir = some presets → ∀ text ∈ presets.defaults, ∀ entry ∈ settings text,
    isIdentifier entry.1 = true ∧ shieldKey entry.1 = true

/-- The environment with each entry of the file set, the last one for good. -/
def environment (ambient : Environment) (lines : List EnvLine) : Environment :=
  (entries lines).foldl (fun env entry => env.insert entry.1 entry.2) ambient

inductive SameMap : Except Str Str → Except Str Str → Prop where
  | lines {first second : Str} (same : ∀ line, line ∈ records newline first ↔ line ∈ records newline second) :
    SameMap (.ok first) (.ok second)
  | failed (message : Str) : SameMap (.error message) (.error message)

theorem SameMap.apart {out message : Str} : ¬ SameMap (.ok out) (.error message) := by
  rintro ⟨⟩

/-! ## Layers with the same last values -/

/-- The keys that say which profiles are enabled, and the level of a scope. -/
def Selects (k : Str) : Prop := k = str "SHIELD_PROFILES" ∨ shieldKey k = true ∧ str "_PRESET" <:+ k

theorem selects_scope (name : Str) : Selects (str "SHIELD_" ++ name ++ str "_PRESET") := by
  refine Or.inr ⟨?_,List.suffix_append _ _⟩
  rw [shieldKey,List.append_assoc,List.isPrefixOf_iff_prefix]
  exact List.prefix_append _ _

theorem levelOf_same {layer other : List (Str × Str)} (same : ∀ k, Selects k → last layer k = last other k) (scope : Str) :
    levelOf layer scope = levelOf other scope := by
  have general : Selects (str "SHIELD_PRESET") := Or.inr (by decide)
  simp only [levelOf,same _ general,same _ (selects_scope _)]

section Selected
variable {layer other : List (Str × Str)} (proper : Proper layer) (proper' : Proper other)
  (same : ∀ k, Selects k → last layer k = last other k) {sh : Interpreter} {presets : Presets}
include proper proper' same

theorem customGet_selected {k : Str} (selects : Selects k) :
    customGet k (written 0x0A (layer.map tabbed)) = customGet k (written 0x0A (other.map tabbed)) := by
  rw [customGet_layer proper.legible,customGet_layer proper'.legible,same k selects]

theorem levelFor_same (scope : Str) :
    levelFor sh scope (written 0x0A (layer.map tabbed)) = levelFor sh scope (written 0x0A (other.map tabbed)) := by
  have general : Selects (str "SHIELD_PRESET") := Or.inr (by decide)
  simp only [levelFor,customGet_selected proper proper' same general,
    customGet_selected proper proper' same (selects_scope _)]

theorem profiles_same : profiles (written 0x0A (layer.map tabbed)) = profiles (written 0x0A (other.map tabbed)) := by
  simp only [profiles,customGet_selected proper proper' same (Or.inl rfl)]

theorem validate_same : validate sh presets (written 0x0A (layer.map tabbed)) =
    validate sh presets (written 0x0A (other.map tabbed)) := by
  have each : checked sh presets (written 0x0A (layer.map tabbed)) = checked sh presets (written 0x0A (other.map tabbed)) := by
    funext scope
    simp only [checked,levelFor_same proper proper' same]
  rw [validate,validate,profiles_same proper proper' same,each]

end Selected

section Same
variable {layer other : List (Str × Str)} (proper : Proper layer) (proper' : Proper other)
  (same : ∀ k, last layer k = last other k) {sh : Interpreter} {presets : Presets}
include proper proper' same

theorem resolveScopes_same (extras : Str) (scopes : List Str) :
    resolveScopes sh presets (written 0x0A (layer.map tabbed)) extras scopes =
      resolveScopes sh presets (written 0x0A (other.map tabbed)) extras scopes := by
  have scope (scope : Str) : resolveScope sh presets (written 0x0A (layer.map tabbed)) scope =
      resolveScope sh presets (written 0x0A (other.map tabbed)) scope := by
    simp only [resolveScope,levelFor_same proper proper' fun k _ => same k,customGet_layer proper.legible,
      customGet_layer proper'.legible,same]
  induction scopes with
  | nil => rfl
  | cons first rest ih => simp only [resolveScopes,scope,ih]

end Same

/-! ## The lines of a resolved layer -/

section Lines
variable {presets : Presets} {layer : List (Str × Str)} (proper : Proper layer)

theorem assigned_single {line : Str} (single : 0x0A ∉ line) : 0x0A ∉ assigned false line := by
  have key : 0x0A ∉ before 0x09 line := fun member => single (before_subset 0x09 line member)
  have value : 0x0A ∉ beforeLast 0x09 (after 0x09 line) := fun member =>
    single (after_subset 0x09 line (beforeLast_subset 0x09 _ member))
  simp [assigned,key,value]

theorem tagged_single {k v source : Str} (key : 0x0A ∉ k) (value : 0x0A ∉ v) (label : 0x0A ∉ source) :
    0x0A ∉ tagged k v source := by
  simp [tagged,key,value,label]

section Single
variable {sh : Interpreter} {custom : Str}

theorem resolveScope_settled {scope out : Str} (ran : resolveScope sh presets custom scope = .ok out) :
    Settled sh presets custom scope := by
  rw [resolveScope] at ran
  cases found : levelFor sh scope custom with
  | error message =>
    rw [found] at ran
    cases ran
  | ok level =>
    rw [found] at ran
    simp only [bind,Except.bind] at ran
    cases held : presets.file scope level with
    | none =>
      rw [held] at ran
      cases ran
    | some text => exact ⟨level,text,found,held⟩

theorem resolveScope_single {scope out : Str} (single : 0x0A ∉ scope) (ran : resolveScope sh presets custom scope = .ok out) :
    ∃ lines : List Str, out = written 0x0A lines ∧ ∀ line ∈ lines, 0x0A ∉ line := by
  rw [resolveScope_reports (resolveScope_settled ran)] at ran
  obtain rfl := Except.ok.inj ran
  refine ⟨_,rfl,List.forall_mem_map.mpr fun report member => ?_⟩
  exact (scopeReports_whole single report member).single

/-- The lines of the scopes, and after them the extras, where no scope fails. -/
theorem resolveScopes_single {scopes : List Str} (single : ∀ scope ∈ scopes, 0x0A ∉ scope) :
    ∃ (lines : List Str) (whole : Bool), (∀ line ∈ lines, 0x0A ∉ line) ∧ ∀ extras,
      resolveScopes sh presets custom extras scopes = written 0x0A lines ++ if whole then extras else [] := by
  induction scopes with
  | nil => exact ⟨[],true,by simp,fun extras => rfl⟩
  | cons scope rest ih =>
    obtain ⟨later,whole,free,same⟩ := ih fun other member => single other (by simp [member])
    cases ran : resolveScope sh presets custom scope with
    | error message => exact ⟨[],false,by simp,fun extras => by rw [resolveScopes,ran]; rfl⟩
    | ok out =>
      obtain ⟨lines,rfl,own⟩ := resolveScope_single (single scope (by simp)) ran
      refine ⟨lines ++ later,whole,List.forall_mem_append.mpr ⟨own,free⟩,fun extras => ?_⟩
      rw [resolveScopes,ran,written_append,List.append_assoc]
      exact congrArg _ (same extras)

end Single

include proper

def extraLines (presets : Presets) (layer : List (Str × Str)) : List Str :=
  (layer.filter fun entry => !listed entry.1 (allPresetKeys presets)).map fun entry =>
    tagged entry.1 ((last layer entry.1).getD []) (str "custom")

theorem resolveExtras_lines :
    resolveExtras presets (written 0x0A (layer.map tabbed)) = written 0x0A (extraLines presets layer) := by
  simp only [resolveExtras,tabbed_records proper.legible,keys_tabbed proper.legible,List.filter_map,List.map_map,customGet_layer proper.legible]
  rfl

theorem extraLines_single : ∀ line ∈ extraLines presets layer, 0x0A ∉ line := by
  intro line member
  obtain ⟨entry,within,rfl⟩ := List.mem_map.mp member
  have named := (proper entry (List.mem_of_mem_filter within)).1
  exact tagged_single (identifier_stops named).1 (value_single proper.legible (by simp)) (by decide)

omit proper in
theorem mem_extraLines {line : Str} : line ∈ extraLines presets layer ↔
    ∃ k v, last layer k = some v ∧ listed k (allPresetKeys presets) = false ∧ line = tagged k v (str "custom") := by
  rw [extraLines,List.mem_map]
  constructor
  · rintro ⟨entry,within,rfl⟩
    obtain ⟨own,unknown⟩ := List.mem_filter.mp within
    obtain ⟨v,found⟩ := Option.isSome_iff_exists.mp (last_isSome.mpr (List.mem_map_of_mem own))
    exact ⟨entry.1,v,found,by simpa using unknown,by rw [found]; rfl⟩
  · rintro ⟨k,v,found,unknown,rfl⟩
    exact ⟨(k,v),List.mem_filter.mpr ⟨last_mem found,by simpa using unknown⟩,by rw [found]; rfl⟩

end Lines

theorem resolve_same {sh : Interpreter} {presets : Presets} {layer other : List (Str × Str)} (proper : Proper layer)
    (proper' : Proper other) (same : ∀ k, last layer k = last other k) :
    SameMap (resolve sh presets false (written 0x0A (layer.map tabbed)))
      (resolve sh presets false (written 0x0A (other.map tabbed))) := by
  have checked := @validate_same _ _ proper proper' (fun k _ => same k) sh presets
  cases valid : validate sh presets (written 0x0A (layer.map tabbed)) with
  | error message =>
    rw [resolve,resolve,← checked,valid]
    exact .failed message
  | ok _ =>
    have scopes : scopes sh presets (written 0x0A (layer.map tabbed)) =
        scopes sh presets (written 0x0A (other.map tabbed)) := by
      rw [Config.scopes,Config.scopes,profiles_same proper proper' fun k _ => same k]
    obtain ⟨lines,whole,free,printed⟩ := @resolveScopes_single presets sh (written 0x0A (layer.map tabbed)) _ scopes_single
    have text : resolveAll sh presets (written 0x0A (layer.map tabbed)) =
        written 0x0A (lines ++ if whole then extraLines presets layer else []) := by
      rw [resolveAll,printed,resolveExtras_lines proper,written_append]
      cases whole <;> rfl
    have text' : resolveAll sh presets (written 0x0A (other.map tabbed)) =
        written 0x0A (lines ++ if whole then extraLines presets other else []) := by
      rw [resolveAll,← scopes,← resolveScopes_same proper proper' same,printed,resolveExtras_lines proper',written_append]
      cases whole <;> rfl
    have single {layer : List (Str × Str)} (proper : Proper layer) :
        ∀ line ∈ lines ++ if whole then extraLines presets layer else [], 0x0A ∉ line := by
      refine List.forall_mem_append.mpr ⟨free,?_⟩
      split_ifs
      · exact extraLines_single proper
      · simp
    have assigned {layer : List (Str × Str)} (proper : Proper layer) :
        ∀ line ∈ (lines ++ if whole then extraLines presets layer else []).map (assigned false), 0x0A ∉ line := by
      intro line member
      obtain ⟨own,within,rfl⟩ := List.mem_map.mp member
      exact assigned_single (single proper own within)
    rw [resolve,resolve,← checked,valid,text,text']
    refine .lines fun line => ?_
    rw [records_lines_written (single proper),records_lines_written (single proper'),
      records_lines_written (assigned proper),records_lines_written (assigned proper')]
    have extras (line : Str) : line ∈ extraLines presets layer ↔ line ∈ extraLines presets other := by
      simp only [mem_extraLines,same]
    cases whole <;> simp [List.mem_map,extras]

/-! ## The environment of a file -/

section Environment
variable {ambient env : Environment} {lines : List EnvLine} {presets : Presets}

/-- The variables of the environment as a layer, in the order they are collected. -/
def envLayer (presets : Presets) (env : Environment) : List (Str × Str) :=
  ((sorted (presetKeys presets)).dedup.filterMap fun k => (env.lookup k).map fun v => (k,v)) ++
    ((sorted (env.keys.filter shieldKey)).filter fun k => !listed k (allPresetKeys presets)).map fun k =>
      (k,(env.lookup k).getD [])

theorem collectFromEnv_layer (named : presets.Named) :
    collectFromEnv presets env = written 0x0A ((envLayer presets env).map tabbed) := by
  have single : ∀ key ∈ (sorted (presetKeys presets)).dedup, 0x0A ∉ key := by
    intro key member
    exact (identifier_stops (presetKeys_named named (by simpa [sorted] using member))).1
  rw [collectFromEnv,allPresetKeys_eq named,records_lines_written single,← allPresetKeys_eq named,envLayer,
    List.map_append,List.map_filterMap,List.map_map,written_append]
  simp only [Option.map_map]
  rfl

/-- What the environment holds of `SHIELD_` variables, a line can hold. -/
structure Holds (env : Environment) : Prop where
  named : ∀ k ∈ env, shieldKey k = true → isIdentifier k = true
  single : ∀ k v, shieldKey k = true → env.lookup k = some v → 0x0A ∉ v

theorem mem_envLayer (shielded : ∀ k ∈ presetKeys presets, shieldKey k = true) {entry : Str × Str}
    (member : entry ∈ envLayer presets env) : shieldKey entry.1 = true ∧ env.lookup entry.1 = some entry.2 := by
  rcases List.mem_append.mp member with known | other
  · obtain ⟨k,own,found⟩ := List.mem_filterMap.mp known
    obtain ⟨v,value,rfl⟩ := Option.map_eq_some_iff.mp found
    exact ⟨shielded k (by simpa [sorted] using own),value⟩
  · obtain ⟨k,own,rfl⟩ := List.mem_map.mp other
    have within : k ∈ env.keys ∧ shieldKey k = true := by
      simpa [sorted] using List.mem_of_mem_filter own
    refine ⟨within.2,?_⟩
    obtain ⟨v,value⟩ := Option.isSome_iff_exists.mp (AList.lookup_isSome.mpr (AList.mem_keys.mpr within.1))
    rw [value]
    rfl

theorem keys_envLayer (named : presets.Named) (holds : Holds env) {k : Str} (shield : shieldKey k = true) (inside : k ∈ env) :
    k ∈ (envLayer presets env).map Prod.fst := by
  obtain ⟨v,value⟩ := Option.isSome_iff_exists.mp (AList.lookup_isSome.mpr inside)
  rw [List.mem_map]
  by_cases known : k ∈ presetKeys presets
  · refine ⟨(k,v),List.mem_append_left _ (List.mem_filterMap.mpr ⟨k,?_,by rw [value]; rfl⟩),rfl⟩
    simpa [sorted] using known
  · refine ⟨(k,(env.lookup k).getD []),List.mem_append_right _ (List.mem_map.mpr ⟨k,?_,rfl⟩),rfl⟩
    have identifier := holds.named k inside shield
    have unlisted : listed k (allPresetKeys presets) = false := by
      rw [← Bool.not_eq_true,listed_iff named (identifier_ne_nil identifier) (identifier_stops identifier).1]
      exact known
    have own : k ∈ env.keys := AList.mem_keys.mp inside
    simpa [sorted,unlisted,shield] using own

theorem last_envLayer (named : presets.Named) (shielded : ∀ k ∈ presetKeys presets, shieldKey k = true)
    (holds : Holds env) (k : Str) :
    last (envLayer presets env) k = if shieldKey k then env.lookup k else none := by
  cases found : last (envLayer presets env) k with
  | some v =>
    obtain ⟨shield,value⟩ := mem_envLayer shielded (last_mem found)
    rw [if_pos shield]
    exact value.symm
  | none =>
    have missing : k ∉ (envLayer presets env).map Prod.fst := by
      rw [← last_isSome,found]
      simp
    split_ifs with shield
    · have absent : k ∉ env := fun inside => missing (keys_envLayer named holds shield inside)
      exact (AList.lookup_eq_none.mpr absent).symm
    · rfl

theorem envLayer_proper (shielded : ∀ k ∈ presetKeys presets, shieldKey k = true) (holds : Holds env) :
    Proper (envLayer presets env) := by
  intro entry member
  obtain ⟨shield,value⟩ := mem_envLayer shielded member
  have inside : entry.1 ∈ env := AList.lookup_isSome.mp (by rw [value]; rfl)
  exact ⟨holds.named entry.1 inside shield,holds.single entry.1 entry.2 shield value⟩

theorem lookup_environment (lines : List EnvLine) (k : Str) :
    (environment ambient lines).lookup k = (last (entries lines) k).or (ambient.lookup k) :=
  lookup_foldl (entries lines) k

theorem lookup_shield (other : ∀ k ∈ ambient, shieldKey k = false) (lines : List EnvLine) {k : Str}
    (shield : shieldKey k = true) : (environment ambient lines).lookup k = last (entries lines) k := by
  have absent : k ∉ ambient := fun inside => by simp [other k inside] at shield
  rw [lookup_environment,AList.lookup_eq_none.mpr absent,Option.or_none]

theorem insert_holds (holds : Holds env) {key value : Str} (named : isIdentifier key = true) (single : 0x0A ∉ value) :
    Holds (env.insert key value) := by
  refine ⟨fun k inside shield => ?_,fun k v shield found => ?_⟩
  · rcases (AList.mem_insert env).mp inside with rfl | earlier
    · exact named
    · exact holds.named k earlier shield
  · by_cases own : k = key
    · subst own
      rw [AList.lookup_insert] at found
      exact Option.some.inj found ▸ single
    · rw [AList.lookup_insert_ne own] at found
      exact holds.single k v shield found

theorem foldl_holds {layer : List (Str × Str)} (proper : Proper layer) (holds : Holds ambient) :
    Holds (layer.foldl (fun env entry => env.insert entry.1 entry.2) ambient) := by
  induction layer generalizing ambient with
  | nil => exact holds
  | cons entry rest ih =>
    obtain ⟨named,single⟩ := proper entry (by simp)
    exact ih (fun other member => proper other (by simp [member])) (insert_holds holds named single)

theorem environment_holds (holds : Holds ambient) (lines : List EnvLine) : Holds (environment ambient lines) :=
  foldl_holds (entries_proper lines) holds

end Environment

/-- Without a directory of its own the resolver finds the presets it is installed with. -/
theorem choose_unset {install : Install} {env env' : Environment} (unset : presetDir ∉ env) (unset' : presetDir ∉ env') :
    choose install env' = (choose install env).map fun found => (env',found.2) := by
  have given : env.lookup presetDir = none := AList.lookup_eq_none.mpr unset
  have given' : env'.lookup presetDir = none := AList.lookup_eq_none.mpr unset'
  simp only [choose,given,given',Option.getD_none,ne_eq,not_true_eq_false,if_false,unset,unset']
  cases install.candidates.find? fun dir => (install.tree dir).isSome with
  | none => rfl
  | some dir =>
    simp only
    cases install.tree dir <;> rfl

/-- The directory that the environment names, or the first of the candidates with presets. -/
theorem choose_cases {install : Install} {env after : Environment} {presets : Presets}
    (chosen : choose install env = .ok (after,presets)) :
    ((env.lookup presetDir).getD [] ≠ [] ∧ install.tree ((env.lookup presetDir).getD []) = some presets ∧ after = env) ∨
      (env.lookup presetDir).getD [] = [] ∧
        ∃ dir, install.candidates.find? (fun dir => (install.tree dir).isSome) = some dir ∧
          install.tree dir = some presets ∧ after = if presetDir ∈ env then env.insert presetDir dir else env := by
  simp only [choose] at chosen
  split at chosen
  · next given =>
    split at chosen
    · next found held =>
      obtain ⟨rfl,rfl⟩ := Prod.mk.inj (Except.ok.inj chosen)
      exact Or.inl ⟨given,held,rfl⟩
    · cases chosen
  · next none =>
    split at chosen
    · cases chosen
    · next dir found =>
      split at chosen
      · next presets held =>
        obtain ⟨rfl,rfl⟩ := Prod.mk.inj (Except.ok.inj chosen)
        exact Or.inr ⟨not_not.mp none,dir,found,held,rfl⟩
      · cases chosen

theorem choose_presets {install : Install} {env after : Environment} {presets : Presets}
    (chosen : choose install env = .ok (after,presets)) : ∃ dir, install.tree dir = some presets := by
  rcases choose_cases chosen with ⟨_,held,_⟩ | ⟨_,dir,_,held,_⟩
  · exact ⟨_,held⟩
  · exact ⟨dir,held⟩

/-- An env file resolves to the same lines, or to the same error, as the environment that it
gives, where it does not say where the presets are. -/
theorem modes_agree (sh : Interpreter) (install : Installed) (ambient : Environment) (lines : List EnvLine)
    (other : ∀ k ∈ ambient, shieldKey k = false)
    (shield : ∀ entry ∈ entries lines, shieldKey entry.1 = true ∧ entry.1 ≠ presetDir) :
    SameMap (resolveFile sh install.toInstall ambient false (fileText lines))
      (resolveEnv sh install.toInstall (environment ambient lines) false) := by
  have own : shieldKey presetDir = true := by decide
  have unset : presetDir ∉ ambient := fun inside => by simp [other _ inside] at own
  have unset' : presetDir ∉ environment ambient lines := by
    intro inside
    have found := AList.lookup_isSome.mpr inside
    rw [lookup_shield other lines own] at found
    obtain ⟨entry,member,key⟩ := List.mem_map.mp (last_isSome.mp found)
    exact (shield entry member).2 key
  rw [resolveFile,resolveEnv,choose_unset unset unset']
  cases chosen : choose install.toInstall ambient with
  | error message => exact .failed message
  | ok found =>
    obtain ⟨after,presets⟩ := found
    obtain ⟨dir,held⟩ := choose_presets chosen
    have keys : ∀ k ∈ presetKeys presets, shieldKey k = true := by
      intro k member
      obtain ⟨text,within,inside⟩ := List.mem_flatMap.mp member
      obtain ⟨entry,own,rfl⟩ := List.mem_map.mp inside
      exact (install.shielded dir presets held text within entry own).2
    have named : presets.Named := fun text within entry own => (install.shielded dir presets held text within entry own).1
    have bare : Holds ambient := by
      refine ⟨fun k inside own => ?_,fun k v own found => ?_⟩
      · simp [other k inside] at own
      · simp [other k (AList.lookup_isSome.mp (Option.isSome_of_eq_some found))] at own
    have holds := environment_holds bare lines
    change SameMap (resolve sh presets false (parseEnvfile (fileText lines)))
      (resolve sh presets false (collectFromEnv presets (environment ambient lines)))
    rw [parseEnvfile,settings_file,collectFromEnv_layer named]
    refine resolve_same (entries_proper lines) (envLayer_proper keys holds) fun k => ?_
    rw [last_envLayer named keys holds]
    split_ifs with own
    · exact (lookup_shield other lines own).symm
    · have missing : ¬ (last (entries lines) k).isSome := by
        rw [last_isSome,List.mem_map]
        rintro ⟨entry,member,rfl⟩
        exact own (shield entry member).1
      simpa using missing

/-! ## The installed presets -/

theorem shipped_shield (path : Str) {k : Str} (member : k ∈ presetKeys (shipped path).toPresets) : shieldKey k = true := by
  obtain ⟨part,own,row,within,rfl⟩ := (defines_iff path k).mp (mem_presetKeys.mp member)
  exact (rows_proper part own row within).1.2.1

def installed (candidates : List Str) (there : Str → Bool) : Installed where
  candidates := candidates
  tree dir := if there dir then some (shipped dir).toPresets else none
  shielded := by
    intro dir presets held text within entry own
    split_ifs at held
    obtain rfl := Option.some.inj held
    refine ⟨catalog_named (shipped dir) text within entry own,shipped_shield dir ?_⟩
    exact List.mem_flatMap.mpr ⟨text,within,List.mem_map_of_mem own⟩

def checkout : Installed := installed [str "/presets"] fun dir => dir = str "/presets"

theorem modes_agree_operator : SameMap (resolveFile plainShell checkout.toInstall ∅ false (fileText operatorLines))
    (resolveEnv plainShell checkout.toInstall (environment ∅ operatorLines) false) :=
  modes_agree plainShell checkout ∅ operatorLines (fun k inside => absurd inside (AList.notMem_empty k)) (by decide +kernel)

def elsewhere : List EnvLine := [envLine presetDir (str "/elsewhere")]

/-- In the environment `SHIELD_PRESET_DIR` chooses the presets; in the file it is one more key. -/
theorem modes_differ : ¬ ∀ (sh : Interpreter) (install : Installed) (ambient : Environment) (lines : List EnvLine),
    (∀ k ∈ ambient, shieldKey k = false) → (∀ entry ∈ entries lines, shieldKey entry.1 = true) →
    SameMap (resolveFile sh install.toInstall ambient false (fileText lines))
      (resolveEnv sh install.toInstall (environment ambient lines) false) := by
  intro claim
  have same := claim plainShell checkout ∅ elsewhere (fun k inside => absurd inside (AList.notMem_empty k)) (by decide +kernel)
  have valid : validate plainShell (shipped (str "/presets")).toPresets (parseEnvfile (fileText elsewhere)) = .ok () := by
    decide +kernel
  have ran : ∃ out, resolveFile plainShell checkout.toInstall ∅ false (fileText elsewhere) = .ok out := by
    change ∃ out, resolve plainShell (shipped (str "/presets")).toPresets false (parseEnvfile (fileText elsewhere)) = .ok out
    exact resolve_succeeds valid false
  have missing : ∃ message, resolveEnv plainShell checkout.toInstall (environment ∅ elsewhere) false = .error message := ⟨_,rfl⟩
  obtain ⟨out,ran⟩ := ran
  obtain ⟨message,missing⟩ := missing
  rw [ran,missing] at same
  exact SameMap.apart same

end FipsShield.Config
