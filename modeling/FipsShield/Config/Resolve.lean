import FipsShield.Config.Layers

/-! What `resolve` prints: for the keys of core and of the enabled profiles the custom value
or the preset's, at the level of the scope, and every other custom key. -/
namespace FipsShield.Config
open Text Lines Banlist

/-! ## The enabled profiles -/

def isSeparator (u : UInt16) : Bool := u == 0x20 || u == 0x2C

/-- The profiles that a comma- or space-separated list names. -/
def names (given : Str) : List Str := fields isSeparator given

/-- What divides a list that is read line by line. -/
def isDivider (u : UInt16) : Bool := isSeparator u || newline u

/-- What divides a list that the shell makes words of. -/
def divides (u : UInt16) : Bool := isBlank u || u == 0x2C

/-- The names that are read of a list, of what `echo` prints of it. -/
def listedNames (sh : Interpreter) (list : Str) : List Str := fields isDivider (sh.echo list)

theorem squeezed_gap {u : UInt16} (gap : (if u = 0x20 then 0x0A else u) = 0x0A) (rest : Str) :
    (squeezed (u::rest)).splitOnP newline = [] ::
      (if (squeezed rest).head? = some 0x0A then ((squeezed rest).splitOnP newline).tail
        else (squeezed rest).splitOnP newline) := by
  rw [squeezed,gap]
  split
  · next later starts =>
    simp [starts,List.splitOnP_cons_eq_if_modifyHead,newline]
  · next other =>
    have apart : (squeezed rest).head? ≠ some 0x0A := by
      intro head
      obtain ⟨later,starts⟩ := List.head?_eq_some_iff.mp head
      exact other later starts
    rw [if_neg apart]
    simp [List.splitOnP_cons_eq_if_modifyHead,newline]

theorem squeezed_cons {u : UInt16} (unblank : u ≠ 0x20) (single : u ≠ 0x0A) (rest : Str) :
    squeezed (u::rest) = u::squeezed rest := by
  rw [squeezed,if_neg unblank]
  split
  · next later starts => simp [starts,single]
  · rfl

theorem divider_cases {u : UInt16} (divider : isDivider u = true) : u = 0x20 ∨ u = 0x2C ∨ u = 0x0A := by
  simpa [isDivider,isSeparator,newline,or_assoc] using divider

theorem squeezed_pieces (s : Str) : ∃ first lines pieces,
    (squeezed (spaced s)).splitOnP newline = first::lines ∧ s.splitOnP isDivider = first::pieces ∧
      lines.filter (fun line => !line.isEmpty) = pieces.filter fun piece => !piece.isEmpty := by
  induction s with
  | nil => exact ⟨[],[],[],rfl,rfl,rfl⟩
  | cons u rest ih =>
    obtain ⟨first,lines,pieces,split,own,same⟩ := ih
    by_cases divider : isDivider u = true
    · have gap : (if (if u = 0x2C then (0x20 : UInt16) else u) = 0x20 then 0x0A
          else if u = 0x2C then (0x20 : UInt16) else u) = 0x0A := by
        rcases divider_cases divider with rfl | rfl | rfl <;> rfl
      have names : (u::rest).splitOnP isDivider = [] :: first::pieces := by
        rw [List.splitOnP_cons_eq_if_modifyHead,if_pos divider,own]
      rw [spaced,List.map_cons,← spaced,squeezed_gap gap,split,names]
      refine ⟨[],_,first::pieces,rfl,rfl,?_⟩
      split_ifs with starts
      · obtain ⟨later,starts⟩ := List.head?_eq_some_iff.mp starts
        rw [starts,List.splitOnP_cons_eq_if_modifyHead,if_pos (by decide)] at split
        obtain ⟨rfl,rfl⟩ := List.cons.inj split
        simpa using same
      · simp only [List.filter_cons,same]
    · have other : u ≠ 0x20 ∧ u ≠ 0x2C ∧ u ≠ 0x0A := by
        simpa [isDivider,isSeparator,newline,not_or,and_assoc] using divider
      have kept : (if u = 0x2C then (0x20 : UInt16) else u) = u := if_neg other.2.1
      rw [spaced,List.map_cons,← spaced,kept,squeezed_cons other.1 other.2.2]
      refine ⟨u::first,lines,pieces,?_,?_,same⟩
      · rw [List.splitOnP_cons_eq_if_modifyHead,if_neg (by simp [newline,other.2.2]),split]
        rfl
      · rw [List.splitOnP_cons_eq_if_modifyHead,if_neg divider,own]
        rfl

theorem squeezed_names (s : Str) : (records newline (squeezed (spaced s))).filter (· ≠ []) = fields isDivider s := by
  obtain ⟨first,lines,pieces,split,own,same⟩ := squeezed_pieces s
  have filled (lines : List Str) : lines.filter (· ≠ []) = lines.filter fun line => !line.isEmpty := by
    refine List.filter_congr fun line _ => ?_
    cases line <;> rfl
  rw [filled,fields_records,fields,fields,split,own]
  simp only [List.filter_cons,same]

theorem listedNames_single {sh : Interpreter} {list name : Str} (own : name ∈ listedNames sh list) : 0x0A ∉ name := by
  intro inside
  have free := fields_free own _ inside
  exact absurd free (by decide)

theorem core_spoken : Spoken (str "core") := by decide

/-- The scopes are core and the names up to the first that is no directory. -/
theorem scopes_names {sh : Interpreter} {presets : Presets} {custom : Str}
    (spoken : ∀ name ∈ (listedNames sh (profiles custom)).takeWhile presets.directory, Spoken name) :
    scopes sh presets custom = str "core"::(listedNames sh (profiles custom)).takeWhile presets.directory := by
  have stop : str "\n" = [0x0A] := by decide
  have printed : sh.echo (str "core") ++ ((listedNames sh (profiles custom)).takeWhile presets.directory).flatMap sh.echo =
      written 0x0A (str "core"::(listedNames sh (profiles custom)).takeWhile presets.directory) := by
    rw [sh.spoken _ core_spoken,written,List.flatMap_cons,stop]
    exact congrArg _ (List.flatMap_congr fun name own => by rw [sh.spoken name (spoken name own),stop])
  rw [scopes]
  simp only [squeezed_names]
  rw [← listedNames,printed,records_lines_written]
  refine List.forall_mem_cons.mpr ⟨by decide,fun name own => ?_⟩
  exact listedNames_single ((List.takeWhile_sublist _).subset own)

/-- The shell divides the list at its blanks and at the commas. -/
theorem fields_spaced (s : Str) : fields isBlank (spaced s) = fields divides s := by
  have split : (spaced s).splitOnP isBlank = s.splitOnP divides := by
    induction s with
    | nil => rfl
    | cons u rest ih =>
      rw [spaced,List.map_cons,← spaced,List.splitOnP_cons_eq_if_modifyHead,List.splitOnP_cons_eq_if_modifyHead,ih]
      by_cases comma : u = 0x2C
      · subst comma
        rfl
      · simp [comma,divides]
  rw [fields,split,fields]

theorem captured_append (s : Str) : ∃ ends, s = captured s ++ ends ∧ ∀ u ∈ ends, newline u = true := by
  refine ⟨(s.reverse.takeWhile newline).reverse,?_,fun u member => ?_⟩
  · rw [captured,← List.reverse_append,List.takeWhile_append_dropWhile,List.reverse_reverse]
  · exact List.all_eq_true.mp List.all_takeWhile u (List.mem_reverse.mp member)

theorem listWords_divides (sh : Interpreter) (list : Str) :
    listWords sh list = (fields divides (sh.echo list)).flatMap (expand sh) := by
  obtain ⟨ends,whole,newlines⟩ := captured_append (spaced (sh.echo list))
  have blanks : ∀ u ∈ ends, isBlank u = true := by
    intro u member
    have line : u = 0x0A := by simpa [newline] using newlines u member
    rw [line]
    rfl
  have same : fields isBlank (captured (spaced (sh.echo list))) = fields isBlank (spaced (sh.echo list)) := by
    conv_rhs => rw [whole]
    exact (fields_append_blank blanks _).symm
  rw [listWords,same,fields_spaced]

/-- A name that is read is a word, unless there is a tab in it. -/
theorem listedNames_word {sh : Interpreter} {list name : Str} (own : name ∈ listedNames sh list) (untabbed : 0x09 ∉ name) :
    name ∈ fields divides (sh.echo list) := by
  refine fields_finer (fun u divider => ?_) own fun u member => ?_
  · rcases divider_cases divider with rfl | rfl | rfl <;> rfl
  · have apart : isDivider u = false := fields_free own u member
    have tab : u ≠ 0x09 := fun same => untabbed (same ▸ member)
    have other : u ≠ 0x20 ∧ u ≠ 0x2C ∧ u ≠ 0x0A := by
      simpa [isDivider,isSeparator,newline,and_assoc] using apart
    simp [divides,isBlank,other,tab]

section Spoken
variable {sh : Interpreter} {list : Str}

/-- A list of names that `echo` prints as they are is itself printed as it is. -/
theorem spoken_list {separates : UInt16 → Bool} (plain : separates 0x5C = false ∧ separates 0x2D = false)
    (each : ∀ name ∈ fields separates list, Spoken name) : Spoken list := by
  refine ⟨fun inside => ?_,fun dashed => ?_⟩
  · obtain ⟨name,own,within⟩ := mem_fields inside plain.1
    exact (each name own).unescaped within
  · obtain ⟨rest,rfl⟩ := List.head?_eq_some_iff.mp dashed
    obtain ⟨name,own,head⟩ := fields_head plain.2 rest
    exact (each name own).undashed head

variable (spoken : Spoken list)
include spoken

theorem listedNames_spoken (single : 0x0A ∉ list) : listedNames sh list = names list := by
  have stop : str "\n" = [0x0A] := by decide
  have line : ∀ u ∈ list, isDivider u = isSeparator u := by
    intro u member
    have other : newline u = false := single_free single u member
    rw [isDivider,other,Bool.or_false]
  rw [listedNames,sh.spoken list spoken,stop,fields_append_blank (List.forall_mem_singleton.mpr rfl),names,fields,fields,splitOnP_congr line]

theorem listWords_spoken : listWords sh list = (fields divides list).flatMap (expand sh) := by
  have stop : str "\n" = [0x0A] := by decide
  rw [listWords_divides,sh.spoken list spoken,stop,fields_append_blank (List.forall_mem_singleton.mpr rfl)]

end Spoken

/-! ## What is valid -/

section Valid
variable {sh : Interpreter} {presets : Presets} {custom scope : Str}

theorem expand_plain {word : Str} (plain : word.any isPattern = false) : expand sh word = [word] := by
  simp [expand,plain]

/-- A level of its own, and a preset at that level. -/
def Settled (sh : Interpreter) (presets : Presets) (custom scope : Str) : Prop :=
  ∃ level text, levelFor sh scope custom = .ok level ∧ presets.file scope level = some text

theorem checked_iff : checked sh presets custom scope = .ok () ↔
    presets.directory scope = true ∧ Settled sh presets custom scope := by
  rw [checked,Settled]
  cases presets.directory scope with
  | false => simp
  | true =>
    cases levelFor sh scope custom with
    | error message => simp [bind,Except.bind]
    | ok level =>
      simp only [Bool.not_true,Bool.false_eq_true,if_false,bind,Except.bind,true_and,Except.ok.injEq,exists_and_left,
        exists_eq_left']
      cases presets.file scope level <;> simp [pure,Except.pure]

theorem forM_ok {α ε : Type} {f : α → Except ε Unit} {items : List α} (done : items.forM f = .ok ()) :
    ∀ item ∈ items, f item = .ok () := by
  induction items with
  | nil => simp
  | cons item rest ih =>
    change (f item >>= fun _ => rest.forM f) = .ok () at done
    cases first : f item with
    | error e =>
      rw [first] at done
      cases done
    | ok _ =>
      rw [first] at done
      exact List.forall_mem_cons.mpr ⟨first,ih done⟩

theorem forM_iff {α ε : Type} {f : α → Except ε Unit} {items : List α} :
    items.forM f = .ok () ↔ ∀ item ∈ items, f item = .ok () := by
  refine ⟨forM_ok,fun each => ?_⟩
  induction items with
  | nil => rfl
  | cons item rest ih =>
    change (f item >>= fun _ => rest.forM f) = .ok ()
    rw [each item (by simp)]
    exact ih fun other member => each other (by simp [member])

theorem validate_iff : validate sh presets custom = .ok () ↔
    ∀ scope ∈ str "core"::listWords sh (profiles custom), presets.directory scope = true ∧ Settled sh presets custom scope := by
  rw [validate,forM_iff]
  simp only [checked_iff]

/-- A name that is read is checked, unless it is a pattern or has a tab. -/
theorem validate_name (valid : validate sh presets custom = .ok ()) {name : Str}
    (own : name ∈ listedNames sh (profiles custom)) (untabbed : 0x09 ∉ name) (plain : name.any isPattern = false) :
    presets.directory name = true ∧ Settled sh presets custom name := by
  refine validate_iff.mp valid name (List.mem_cons_of_mem _ ?_)
  rw [listWords_divides,List.mem_flatMap]
  exact ⟨name,listedNames_word own untabbed,by rw [expand_plain plain]; exact List.mem_singleton_self name⟩

theorem resolve_valid {shell : Bool} {out : Str} (resolves : resolve sh presets shell custom = .ok out) :
    validate sh presets custom = .ok () ∧
      out = written 0x0A ((records newline (resolveAll sh presets custom)).map (assigned shell)) := by
  cases valid : validate sh presets custom with
  | error message =>
    rw [resolve,valid] at resolves
    cases resolves
  | ok _ =>
    rw [resolve,valid] at resolves
    exact ⟨rfl,(Except.ok.inj resolves).symm⟩

theorem resolve_succeeds (valid : validate sh presets custom = .ok ()) (shell : Bool) :
    ∃ out, resolve sh presets shell custom = .ok out := by
  rw [resolve,valid]
  exact ⟨_,rfl⟩

end Valid

/-! ## Presets with the keys of one scope in no other -/

/-- Presets whose levels define the same keys, each in one scope and once, under names that a shell
passes on as they are. -/
structure Catalog extends Presets where
  scopes : List Str
  lines : Str → Str → Option (List EnvLine)
  texts : ∀ scope ∈ scopes, ∀ level, file scope level = (lines scope level).map fileText
  files : defaults = scopes.filterMap fun scope => (lines scope (str "default")).map fileText
  directories : ∀ scope ∈ scopes, directory scope = true
  core : str "core" ∈ scopes
  plain : ∀ scope ∈ scopes, 0x0A ∉ scope ∧ 0x09 ∉ scope
  spoken : ∀ scope ∈ scopes, Spoken scope ∧ scope.any isPattern = false
  known : ∀ scope ∈ scopes, ∀ level preset, lines scope level = some preset → ∀ entry ∈ entries preset,
    ∃ base, lines scope (str "default") = some base ∧ entry.1 ∈ (entries base).map Prod.fst
  apart : ∀ scope ∈ scopes, ∀ scope' ∈ scopes, ∀ level level' preset preset', lines scope level = some preset →
    lines scope' level' = some preset' → ∀ entry ∈ entries preset, ∀ entry' ∈ entries preset',
    entry.1 = entry'.1 → scope = scope'
  once : ∀ scope ∈ scopes, ∀ level preset, lines scope level = some preset → ((entries preset).map Prod.fst).Nodup

theorem Catalog.file_lines (catalog : Catalog) {scope level text : Str} (member : scope ∈ catalog.scopes)
    (held : catalog.file scope level = some text) :
    ∃ preset, catalog.lines scope level = some preset ∧ text = fileText preset := by
  rw [catalog.texts scope member] at held
  obtain ⟨preset,lines,same⟩ := Option.map_eq_some_iff.mp held
  exact ⟨preset,lines,same.symm⟩

section Due
variable (catalog : Catalog) (layer : List (Str × Str))

def profilesOf : Str :=
  let given := (last layer (str "SHIELD_PROFILES")).getD (str "strfry")
  if given = [] then str "strfry" else given

def enabled : List Str := str "core"::names (profilesOf layer)

/-- The level of its own for a profile, else the one for all, else the default. -/
def levelOf (scope : Str) : Str :=
  let own := if scope = str "core" then [] else (last layer (str "SHIELD_" ++ upper scope ++ str "_PRESET")).getD []
  let general := if own = [] then (last layer (str "SHIELD_PRESET")).getD [] else own
  if general = [] then str "default" else general

def Catalog.Defines (k : Str) : Prop :=
  ∃ scope ∈ catalog.scopes, ∃ level preset, catalog.lines scope level = some preset ∧ k ∈ (entries preset).map Prod.fst

/-- The value that is due to a key: of the keys in the presets of core and of the enabled
profiles the last custom value or the preset's, of those in no preset the last custom value. -/
def Due (k v : Str) : Prop :=
  (∃ scope ∈ enabled layer, ∃ preset, catalog.lines scope (levelOf layer scope) = some preset ∧
    ∃ value, (k,value) ∈ entries preset ∧ v = (last layer k).getD value) ∨
  ¬ catalog.Defines k ∧ last layer k = some v

/-- The keys and values of a scope, then those that no preset has. -/
def scopeEntries (scope : Str) : List (Str × Str) :=
  (entries ((catalog.lines scope (levelOf layer scope)).getD [])).map fun entry =>
    (entry.1,(last layer entry.1).getD entry.2)

def extraEntries : List (Str × Str) :=
  (layer.filter fun entry => !(presetKeys catalog.toPresets).contains entry.1).map fun entry =>
    (entry.1,(last layer entry.1).getD [])

def resolved : List (Str × Str) := (enabled layer).flatMap (scopeEntries catalog layer) ++ extraEntries catalog layer

end Due

def assignment (shell : Bool) (entry : Str × Str) : Str :=
  if shell then str "export " ++ entry.1 ++ str "='" ++ quoted entry.2 ++ str "'" else entry.1 ++ 0x3D::entry.2

/-! ## What is resolved -/

theorem catalog_named (catalog : Catalog) : catalog.toPresets.Named := by
  intro text member entry own
  rw [catalog.files] at member
  obtain ⟨scope,_,held⟩ := List.mem_filterMap.mp member
  obtain ⟨preset,_,rfl⟩ := Option.map_eq_some_iff.mp held
  rw [settings_file] at own
  exact (entries_proper preset entry own).1

/-- A level that is taken is one of the three, so it is in one line and has no tab. -/
theorem levelFor_level {sh : Interpreter} {scope custom level : Str} (found : levelFor sh scope custom = .ok level) : 0x0A ∉ level ∧ 0x09 ∉ level := by
  have listed {chosen : Str} {message : Str} (found : (if within (0x20::chosen ++ [0x20]) (0x20::levels ++ [0x20]) then
      Except.ok chosen else .error message) = .ok level) : 0x0A ∉ level ∧ 0x09 ∉ level := by
    split_ifs at found with inside
    obtain rfl := Except.ok.inj found
    have part := (within_iff _ _).mp inside
    refine ⟨fun member => ?_,fun member => ?_⟩
    · exact absurd (part.subset (by simp [member])) (by decide : (0x0A : UInt16) ∉ 0x20::levels ++ [0x20])
    · exact absurd (part.subset (by simp [member])) (by decide : (0x09 : UInt16) ∉ 0x20::levels ++ [0x20])
  exact listed found

theorem upper_single {s : Str} (single : 0x0A ∉ s) : 0x0A ∉ upper s := by
  intro inside
  obtain ⟨u,own,same⟩ := List.mem_map.mp inside
  split_ifs at same with small
  · simp only [Bool.and_eq_true,decide_eq_true_eq,UInt16.le_iff_toNat_le] at small
    have line := congrArg UInt16.toNat same
    rw [UInt16.toNat_sub_of_le _ _ (by rw [UInt16.le_iff_toNat_le]; exact le_trans (by decide) small.1)] at line
    simp only [UInt16.reduceToNat] at small line
    omega
  · exact single (same ▸ own)

/-- The name of a scope comes in capital letters out of `echo` and `tr`. -/
theorem upper_echo {sh : Interpreter} {scope : Str} (spoken : Spoken scope) (single : 0x0A ∉ scope) :
    captured (upper (sh.echo scope)) = upper scope := by
  have line : upper (scope ++ str "\n") = upper scope ++ str "\n" := by
    rw [upper,List.map_append]
    rfl
  rw [sh.spoken scope spoken,line,captured_line (upper_single single)]

section Resolved
variable {sh : Interpreter} {catalog : Catalog} {layer : List (Str × Str)} (legible : Legible layer)
include legible

theorem profiles_layer : profiles (written 0x0A (layer.map tabbed)) = profilesOf layer := by
  rw [profiles,customGet_layer legible,profilesOf]

theorem levelFor_layer {scope : Str} (spoken : Spoken scope) (single : 0x0A ∉ scope) :
    levelFor sh scope (written 0x0A (layer.map tabbed)) =
    if within (0x20::levelOf layer scope ++ [0x20]) (0x20::levels ++ [0x20]) then .ok (levelOf layer scope)
    else .error (die (str "unknown preset level '" ++ levelOf layer scope ++ str "' (have:" ++ levels ++ str ")")) := by
  simp only [levelFor,customGet_layer legible,upper_echo spoken single]
  rfl

theorem levelFor_ok {scope level : Str} (spoken : Spoken scope) (single : 0x0A ∉ scope)
    (found : levelFor sh scope (written 0x0A (layer.map tabbed)) = .ok level) :
    level = levelOf layer scope ∧ 0x0A ∉ level ∧ 0x09 ∉ level := by
  have own := levelFor_level found
  rw [levelFor_layer legible spoken single] at found
  split_ifs at found
  exact ⟨(Except.ok.inj found).symm,own⟩

theorem last_single {k v : Str} (found : last layer k = some v) : 0x0A ∉ v := (legible (k,v) (last_mem found)).2.2.2

def sourceOf (layer : List (Str × Str)) (scope k : Str) : Str :=
  if (last layer k).isSome then str "custom" else str "preset:" ++ scope ++ str "/" ++ levelOf layer scope

theorem resolveScope_layer {presets : Presets} {scope : Str} {preset : List EnvLine}
    (level : levelFor sh scope (written 0x0A (layer.map tabbed)) = .ok (levelOf layer scope))
    (text : presets.file scope (levelOf layer scope) = some (fileText preset)) :
    resolveScope sh presets (written 0x0A (layer.map tabbed)) scope =
      .ok (written 0x0A ((entries preset).map fun entry =>
        tagged entry.1 ((last layer entry.1).getD entry.2) (sourceOf layer scope entry.1))) := by
  rw [resolveScope,level]
  simp only [bind,Except.bind,text,parseEnvfile,settings_file,tabbed_records (entries_proper preset).legible,List.map_map]
  refine congrArg (fun lines => Except.ok (written 0x0A lines)) (List.map_congr_left fun entry member => ?_)
  have untabbed := (identifier_stops (entries_proper preset entry member).1).2.1
  rw [Function.comp_apply,before_tabbed untabbed,after_tabbed untabbed,customGet_layer legible,sourceOf]
  cases last layer entry.1 <;> rfl

/-- The key and the value of a line that `resolve_all` prints. -/
def reported (line : Str) : Str × Str := (before 0x09 line,beforeLast 0x09 (after 0x09 line))

/-- The lines that `resolve_all` prints of a list of keys and values. -/
def Printed (text : Str) (pairs : List (Str × Str)) : Prop :=
  ∃ lines : List Str, text = written 0x0A lines ∧ (∀ line ∈ lines, 0x0A ∉ line) ∧
    ∀ shell, lines.map (assigned shell) = pairs.map (assignment shell)

omit legible in
theorem Printed.append {first second : Str} {pairs others : List (Str × Str)} (own : Printed first pairs)
    (later : Printed second others) : Printed (first ++ second) (pairs ++ others) := by
  obtain ⟨lines,rfl,single,same⟩ := own
  obtain ⟨lines',rfl,single',same'⟩ := later
  exact ⟨lines ++ lines',by simp,List.forall_mem_append.mpr ⟨single,single'⟩,fun shell => by simp [same,same']⟩

omit legible in
theorem reported_tagged {k v source : Str} (untabbed : 0x09 ∉ k) (plain : 0x09 ∉ source) :
    reported (tagged k v source) = (k,v) := by
  have line : tagged k v source = k ++ 0x09::(v ++ 0x09::source) := by simp [tagged]
  rw [reported,line,before_stop untabbed,after_stop untabbed,beforeLast_stop plain]

omit legible in
theorem printed_tagged {α : Type} {items : List α} (pair : α → Str × Str) (source : α → Str)
    (plain : ∀ item ∈ items, 0x09 ∉ (pair item).1 ∧ 0x0A ∉ (pair item).1 ∧ 0x0A ∉ (pair item).2)
    (label : ∀ item ∈ items, 0x0A ∉ source item ∧ 0x09 ∉ source item) :
    Printed (written 0x0A (items.map fun item => tagged (pair item).1 (pair item).2 (source item))) (items.map pair) := by
  refine ⟨_,rfl,?_,fun shell => ?_⟩
  · intro line member
    obtain ⟨item,within,rfl⟩ := List.mem_map.mp member
    obtain ⟨_,key,single⟩ := plain item within
    simp [tagged,key,single,(label item within).1]
  · rw [List.map_map,List.map_map]
    refine List.map_congr_left fun item within => ?_
    have own := @reported_tagged (pair item).1 (pair item).2 _ (plain item within).1 (label item within).2
    exact congrArg (assignment shell) own

theorem value_single {k v : Str} (single : 0x0A ∉ v) : 0x0A ∉ (last layer k).getD v := by
  cases found : last layer k with
  | none => exact single
  | some w => exact last_single legible found

theorem scope_printed {scope : Str} {level : Str} (member : scope ∈ catalog.scopes)
    (found : levelFor sh scope (written 0x0A (layer.map tabbed)) = .ok level) {text : Str}
    (held : catalog.file scope level = some text) :
    ∃ lines, resolveScope sh catalog.toPresets (written 0x0A (layer.map tabbed)) scope = .ok lines ∧
      Printed lines (scopeEntries catalog layer scope) := by
  obtain ⟨rfl,single,plain⟩ := levelFor_ok legible (catalog.spoken scope member).1 (catalog.plain scope member).1 found
  obtain ⟨preset,lines,rfl⟩ := catalog.file_lines member held
  refine ⟨_,resolveScope_layer legible found held,?_⟩
  rw [scopeEntries,lines,Option.getD_some]
  refine printed_tagged (fun entry : Str × Str => (entry.1,(last layer entry.1).getD entry.2))
    (fun entry => sourceOf layer scope entry.1) ?_ ?_
  · intro entry within
    obtain ⟨named,value⟩ := entries_proper preset entry within
    obtain ⟨line,tab,_⟩ := identifier_stops named
    exact ⟨tab,line,value_single legible value⟩
  · intro entry within
    obtain ⟨ended,tab⟩ := catalog.plain scope member
    have custom : (0x0A : UInt16) ∉ str "custom" ∧ (0x09 : UInt16) ∉ str "custom" := by decide
    have label : (0x0A : UInt16) ∉ str "preset:" ∧ (0x09 : UInt16) ∉ str "preset:" := by decide
    have slash : (0x0A : UInt16) ∉ str "/" ∧ (0x09 : UInt16) ∉ str "/" := by decide
    rw [sourceOf]
    split_ifs
    · exact custom
    · simp [label,slash,ended,tab,single,plain]

theorem scopes_printed {scopes : List Str} (members : ∀ scope ∈ scopes, scope ∈ catalog.scopes)
    (valid : ∀ scope ∈ scopes, Settled sh catalog.toPresets (written 0x0A (layer.map tabbed)) scope) {extras : Str}
    {others : List (Str × Str)} (rest : Printed extras others) :
    Printed (resolveScopes sh catalog.toPresets (written 0x0A (layer.map tabbed)) extras scopes)
      (scopes.flatMap (scopeEntries catalog layer) ++ others) := by
  induction scopes with
  | nil => exact rest
  | cons scope later ih =>
    obtain ⟨level,text,found,held⟩ := valid scope (by simp)
    obtain ⟨lines,ran,printed⟩ := scope_printed legible (members scope (by simp)) found held
    rw [resolveScopes,ran,List.flatMap_cons,List.append_assoc]
    exact printed.append (ih (fun other member => members other (by simp [member]))
      fun other member => valid other (by simp [member]))

theorem extras_printed :
    Printed (resolveExtras catalog.toPresets (written 0x0A (layer.map tabbed))) (extraEntries catalog layer) := by
  have keys : ((records newline (written 0x0A (layer.map tabbed))).map (before 0x09)).filter
      (fun k => !listed k (allPresetKeys catalog.toPresets)) =
      (layer.filter fun entry => !(presetKeys catalog.toPresets).contains entry.1).map Prod.fst := by
    rw [tabbed_records legible,keys_tabbed legible,List.filter_map]
    congr 1
    refine List.filter_congr fun entry member => ?_
    obtain ⟨begins,_,single,_⟩ := legible entry member
    have filled : entry.1 ≠ [] := by
      rintro none
      rw [none] at begins
      cases begins
    have same := listed_iff (catalog_named catalog) filled single
    rw [← List.contains_iff_mem] at same
    rw [Function.comp_apply,Bool.eq_iff_iff.mpr same]
  have custom : (0x0A : UInt16) ∉ str "custom" ∧ (0x09 : UInt16) ∉ str "custom" := by decide
  rw [resolveExtras,keys,extraEntries,List.map_map]
  simp only [Function.comp_def,customGet_layer legible]
  refine printed_tagged (fun entry : Str × Str => (entry.1,(last layer entry.1).getD [])) (fun _ => str "custom") ?_
    fun _ _ => custom
  intro entry member
  obtain ⟨_,tab,line,_⟩ := legible entry (List.mem_of_mem_filter member)
  exact ⟨tab,line,value_single legible (by simp)⟩

theorem profiles_single : 0x0A ∉ profilesOf layer := by
  have default : (0x0A : UInt16) ∉ str "strfry" := by decide
  have given : 0x0A ∉ (last layer (str "SHIELD_PROFILES")).getD (str "strfry") := value_single legible default
  rw [profilesOf]
  split_ifs
  · exact default
  · exact given

/-- The scopes that are read: core, and the profiles up to the first that has no directory. -/
def readScopes (sh : Interpreter) (catalog : Catalog) (layer : List (Str × Str)) : List Str :=
  str "core"::(listedNames sh (profilesOf layer)).takeWhile catalog.directory

def readEntries (sh : Interpreter) (catalog : Catalog) (layer : List (Str × Str)) : List (Str × Str) :=
  (readScopes sh catalog layer).flatMap (scopeEntries catalog layer) ++ extraEntries catalog layer

theorem resolve_read (members : ∀ scope ∈ readScopes sh catalog layer, scope ∈ catalog.scopes)
    (valid : validate sh catalog.toPresets (written 0x0A (layer.map tabbed)) = .ok ()) (shell : Bool) :
    resolve sh catalog.toPresets shell (written 0x0A (layer.map tabbed)) =
      .ok (written 0x0A ((readEntries sh catalog layer).map (assignment shell))) := by
  have spoken : ∀ name ∈ (listedNames sh (profilesOf layer)).takeWhile catalog.directory, Spoken name := fun name own =>
    (catalog.spoken name (members name (List.mem_cons_of_mem _ own))).1
  have read : scopes sh catalog.toPresets (written 0x0A (layer.map tabbed)) = readScopes sh catalog layer := by
    rw [scopes_names (by rw [profiles_layer legible]; exact spoken),profiles_layer legible,readScopes]
  have settled : ∀ scope ∈ readScopes sh catalog layer,
      Settled sh catalog.toPresets (written 0x0A (layer.map tabbed)) scope := by
    intro scope member
    rcases List.mem_cons.mp member with rfl | profile
    · exact (validate_iff.mp valid _ List.mem_cons_self).2
    · have own := (List.takeWhile_sublist _).subset profile
      rw [← profiles_layer legible] at own
      exact (validate_name valid own (catalog.plain scope (members scope member)).2
        (catalog.spoken scope (members scope member)).2).2
  obtain ⟨lines,whole,free,same⟩ := scopes_printed legible members settled (@extras_printed catalog layer legible)
  rw [resolve,valid,resolveAll,read,whole]
  change Except.ok _ = _
  rw [records_lines_written free,same shell,readEntries]

theorem readScopes_enabled (named : ∀ profile ∈ names (profilesOf layer), profile ∈ catalog.scopes) :
    readScopes sh catalog layer = enabled layer := by
  have spoken : Spoken (profilesOf layer) := spoken_list (by decide) fun name own => (catalog.spoken name (named name own)).1
  rw [readScopes,enabled,listedNames_spoken spoken (profiles_single legible)]
  congr 1
  rw [List.takeWhile_eq_self_iff]
  exact fun profile within => catalog.directories profile (named profile within)

/-- What `resolve` prints, where every enabled profile has presets. -/
theorem resolve_layer (named : ∀ profile ∈ names (profilesOf layer), profile ∈ catalog.scopes)
    (valid : validate sh catalog.toPresets (written 0x0A (layer.map tabbed)) = .ok ()) (shell : Bool) :
    resolve sh catalog.toPresets shell (written 0x0A (layer.map tabbed)) =
      .ok (written 0x0A ((resolved catalog layer).map (assignment shell))) := by
  have members : ∀ scope ∈ readScopes sh catalog layer, scope ∈ catalog.scopes := by
    rw [readScopes_enabled legible named]
    exact List.forall_mem_cons.mpr ⟨catalog.core,named⟩
  rw [resolve_read legible members valid shell,readEntries,readScopes_enabled legible named,resolved]

end Resolved

/-! ## What is due -/

section Members
variable {catalog : Catalog} {layer : List (Str × Str)} {k v : Str}

theorem mem_presetKeys : k ∈ presetKeys catalog.toPresets ↔ catalog.Defines k := by
  rw [presetKeys,catalog.files]
  constructor
  · intro member
    obtain ⟨text,within,inside⟩ := List.mem_flatMap.mp member
    obtain ⟨scope,own,held⟩ := List.mem_filterMap.mp within
    obtain ⟨preset,lines,rfl⟩ := Option.map_eq_some_iff.mp held
    rw [settings_file] at inside
    exact ⟨scope,own,_,preset,lines,inside⟩
  · rintro ⟨scope,own,level,preset,lines,inside⟩
    obtain ⟨entry,within,rfl⟩ := List.mem_map.mp inside
    obtain ⟨base,held,known⟩ := catalog.known scope own level preset lines entry within
    refine List.mem_flatMap.mpr ⟨fileText base,List.mem_filterMap.mpr ⟨scope,own,by rw [held]; rfl⟩,?_⟩
    rwa [settings_file]

theorem mem_scopeEntries {scope : Str} : (k,v) ∈ scopeEntries catalog layer scope ↔
    ∃ preset, catalog.lines scope (levelOf layer scope) = some preset ∧
      ∃ value, (k,value) ∈ entries preset ∧ v = (last layer k).getD value := by
  rw [scopeEntries,List.mem_map]
  cases catalog.lines scope (levelOf layer scope) with
  | none => simp [entries]
  | some preset =>
    constructor
    · rintro ⟨entry,own,same⟩
      obtain ⟨rfl,rfl⟩ := Prod.mk.inj same
      exact ⟨preset,rfl,entry.2,own,rfl⟩
    · rintro ⟨_,same,value,own,rfl⟩
      obtain rfl := Option.some.inj same
      exact ⟨(k,value),own,rfl⟩

theorem mem_extraEntries : (k,v) ∈ extraEntries catalog layer ↔ ¬ catalog.Defines k ∧ last layer k = some v := by
  rw [extraEntries,List.mem_map]
  constructor
  · rintro ⟨entry,within,same⟩
    obtain ⟨own,unknown⟩ := List.mem_filter.mp within
    obtain ⟨rfl,rfl⟩ := Prod.mk.inj same
    have found : (last layer entry.1).isSome := last_isSome.mpr (List.mem_map_of_mem own)
    refine ⟨fun defined => ?_,?_⟩
    · have member := mem_presetKeys.mpr defined
      simp [member] at unknown
    · obtain ⟨value,some⟩ := Option.isSome_iff_exists.mp found
      simp [some]
  · rintro ⟨unknown,found⟩
    refine ⟨(k,v),List.mem_filter.mpr ⟨last_mem found,?_⟩,by simp [found]⟩
    simpa [mem_presetKeys] using unknown

theorem mem_resolved : (k,v) ∈ resolved catalog layer ↔ Due catalog layer k v := by
  rw [resolved,List.mem_append,Due,List.mem_flatMap,mem_extraEntries]
  simp only [mem_scopeEntries]

/-- Of a key that no preset has, the last custom value is printed. -/
theorem last_unknown {sh : Interpreter} (members : ∀ scope ∈ readScopes sh catalog layer, scope ∈ catalog.scopes)
    (unknown : ¬ catalog.Defines k) : last (readEntries sh catalog layer) k = last layer k := by
  have printed (w : Str) : (k,w) ∈ readEntries sh catalog layer ↔ last layer k = some w := by
    rw [readEntries,List.mem_append,mem_extraEntries,List.mem_flatMap]
    constructor
    · rintro (⟨scope,own,inside⟩ | ⟨_,found⟩)
      · obtain ⟨preset,lines,value,entry,_⟩ := mem_scopeEntries.mp inside
        exact absurd ⟨scope,members scope own,_,preset,lines,List.mem_map_of_mem entry⟩ unknown
      · exact found
    · exact fun found => Or.inr ⟨unknown,found⟩
  cases found : last layer k with
  | some v => exact last_only ((printed v).mpr found) fun w inside => Option.some.inj (((printed w).mp inside).symm.trans found)
  | none =>
    by_contra some
    obtain ⟨w,held⟩ := Option.ne_none_iff_exists'.mp some
    rw [(printed w).mp (last_mem held)] at found
    contradiction

theorem Due.unique (named : ∀ profile ∈ names (profilesOf layer), profile ∈ catalog.scopes) {w : Str}
    (due : Due catalog layer k v) (other : Due catalog layer k w) : v = w := by
  have members : ∀ scope ∈ enabled layer, scope ∈ catalog.scopes := List.forall_mem_cons.mpr ⟨catalog.core,named⟩
  have defined {scope value : Str} {preset : List EnvLine} (own : scope ∈ enabled layer)
      (lines : catalog.lines scope (levelOf layer scope) = some preset) (inside : (k,value) ∈ entries preset) :
      catalog.Defines k := ⟨scope,members scope own,_,preset,lines,List.mem_map_of_mem inside⟩
  rcases due with ⟨scope,own,preset,lines,value,inside,rfl⟩ | ⟨unknown,found⟩
  · rcases other with ⟨scope',own',preset',lines',value',inside',rfl⟩ | ⟨unknown',_⟩
    · obtain rfl := catalog.apart scope (members scope own) scope' (members scope' own') _ _ preset preset' lines lines'
        _ inside _ inside' rfl
      obtain rfl := Option.some.inj (lines.symm.trans lines')
      have same := List.inj_on_of_nodup_map (catalog.once scope (members scope own) _ preset lines) inside inside' rfl
      rw [(Prod.mk.inj same).2]
    · exact absurd (defined own lines inside) unknown'
  · rcases other with ⟨scope',own',preset',lines',value',inside',_⟩ | ⟨_,found'⟩
    · exact absurd (defined own' lines' inside') unknown
    · exact Option.some.inj (found.symm.trans found')

end Members

theorem resolved_proper {catalog : Catalog} {layer : List (Str × Str)} (proper : Proper layer) (scopes : List Str) :
    Proper (scopes.flatMap (scopeEntries catalog layer) ++ extraEntries catalog layer) := by
  intro entry member
  rcases List.mem_append.mp member with inside | extra
  · obtain ⟨scope,_,within⟩ := List.mem_flatMap.mp inside
    obtain ⟨own,held,rfl⟩ := List.mem_map.mp within
    obtain ⟨named,single⟩ := entries_proper _ own held
    exact ⟨named,value_single proper.legible single⟩
  · obtain ⟨own,held,rfl⟩ := List.mem_map.mp extra
    exact ⟨(proper own (List.mem_of_mem_filter held)).1,value_single proper.legible (by simp)⟩

theorem assignment_single {catalog : Catalog} {layer : List (Str × Str)} (proper : Proper layer) :
    ∀ line ∈ (resolved catalog layer).map (assignment false), 0x0A ∉ line := by
  intro line member
  obtain ⟨entry,own,rfl⟩ := List.mem_map.mp member
  obtain ⟨named,single⟩ := resolved_proper proper (enabled layer) entry own
  simp [assignment,(identifier_stops named).1,single]

/-- `resolve` prints every key with the value that is due to it, and with no other. -/
theorem resolve_due (sh : Interpreter) (catalog : Catalog) (lines : List EnvLine) (out : Str)
    (named : ∀ profile ∈ names (profilesOf (entries lines)), profile ∈ catalog.scopes)
    (resolves : resolve sh catalog.toPresets false (parseEnvfile (fileText lines)) = .ok out) :
    (∀ line, line ∈ records newline out ↔ ∃ k v, Due catalog (entries lines) k v ∧ line = k ++ 0x3D::v) ∧
      ∀ k v w, Due catalog (entries lines) k v → Due catalog (entries lines) k w → v = w := by
  have proper := entries_proper lines
  rw [parseEnvfile,settings_file] at resolves
  rw [resolve_layer proper.legible named (resolve_valid resolves).1] at resolves
  obtain rfl := Except.ok.inj resolves
  refine ⟨fun line => ?_,fun k v w due other => due.unique named other⟩
  rw [records_lines_written (assignment_single proper),List.mem_map]
  constructor
  · rintro ⟨⟨k,v⟩,member,rfl⟩
    exact ⟨k,v,mem_resolved.mp member,rfl⟩
  · rintro ⟨k,v,due,rfl⟩
    exact ⟨(k,v),mem_resolved.mpr due,rfl⟩

end FipsShield.Config
