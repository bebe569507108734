import FipsShield.Config.Assignments
import FipsShield.Config.Modes

/-! The fail2ban jails that the two modes render, the host from the env file alone
(`deploy/host/install-fail2ban.sh`), the container from what the resolver makes of the
environment (`deploy/container/f2b-entrypoint.sh`). -/
namespace FipsShield.Config
open Text Lines Banlist Numeral

/-! ## envsubst -/

/-- What follows a `$`: the value of a variable that is to be replaced, or itself. -/
def substitute (names : List Str) (env : Environment) (piece : Str) : Str :=
  match piece with
  | 0x7B::rest =>
    let name := rest.takeWhile isNameUnit
    if isIdentifier name && names.contains name && (rest.dropWhile isNameUnit).head? == some 0x7D then
      (env.lookup name).getD [] ++ (rest.dropWhile isNameUnit).tail
    else 0x24::piece
  | _ =>
    let name := piece.takeWhile isNameUnit
    if isIdentifier name && names.contains name then (env.lookup name).getD [] ++ piece.dropWhile isNameUnit
    else 0x24::piece

def envsubst (names : List Str) (env : Environment) (text : Str) : Str :=
  match text.splitOnP fun u => u == 0x24 with
  | [] => []
  | first::pieces => first ++ pieces.flatMap (substitute names env)

/-! ## The template -/

/-- A line of the template, which a variable may end. -/
structure TemplateLine where
  text : Str
  key : Option Str

def TemplateLine.written (line : TemplateLine) : Str :=
  match line.key with
  | none => line.text
  | some key => line.text ++ str "$\x7b" ++ key ++ str "\x7d"

def fixed (text : String) : TemplateLine := ⟨str text,none⟩
def variableLine (text key : String) : TemplateLine := ⟨str text,some (str key)⟩

def jail (name retry logpath maxtime : String) : List TemplateLine :=
  [fixed ("[fips-shield-" ++ name ++ "]"),
    fixed "enabled = true",
    fixed ("filter = fips-shield-" ++ name),
    fixed ("logpath = " ++ logpath),
    variableLine "maxretry = " retry,
    fixed "banaction = fips-shield",
    fixed "backend = polling",
    fixed "usedns = no",
    variableLine "findtime = " "SHIELD_F2B_FINDTIME",
    variableLine "bantime = " "SHIELD_F2B_BANTIME",
    fixed "bantime.increment = true",
    fixed "bantime.factor = 2",
    fixed ("bantime.maxtime = " ++ maxtime),
    variableLine "ignoreip = " "SHIELD_F2B_IGNOREIP",
    variableLine "ignoreself = " "SHIELD_F2B_IGNORESELF",
    fixed ""]

def accessLog : String := "/var/log/nginx/shield-*.access.log"
def errorLog : String := "/var/log/nginx/shield-error.log"

/-- `core/fail2ban/jail.d/fips-shield.local.template`, without its comments. -/
def template : List TemplateLine :=
  jail "handshake" "SHIELD_F2B_HANDSHAKE_MAXRETRY" accessLog "1w" ++
  jail "verdict" "SHIELD_F2B_VERDICT_MAXRETRY" errorLog "1d" ++
  jail "abuse" "SHIELD_F2B_ABUSE_MAXRETRY" errorLog "1w" ++
  jail "connrate" "SHIELD_F2B_CONNRATE_MAXRETRY" errorLog "1w" ++
  jail "conn" "SHIELD_F2B_CONN_MAXRETRY" "/var/log/nginx/shield-*.stream.log" "1w" ++
  jail "scan" "SHIELD_F2B_SCAN_MAXRETRY" accessLog "1w"

def templateText : Str := written 0x0A (template.map TemplateLine.written)

def placeholders : List Str :=
  ["SHIELD_F2B_FINDTIME","SHIELD_F2B_BANTIME","SHIELD_F2B_IGNOREIP","SHIELD_F2B_IGNORESELF",
    "SHIELD_F2B_HANDSHAKE_MAXRETRY","SHIELD_F2B_VERDICT_MAXRETRY","SHIELD_F2B_ABUSE_MAXRETRY",
    "SHIELD_F2B_SCAN_MAXRETRY","SHIELD_F2B_CONNRATE_MAXRETRY","SHIELD_F2B_CONN_MAXRETRY"].map str

def render (env : Environment) : Str := envsubst placeholders env templateText

/-! ## Where the scripts run -/

/-- The presets that are installed, an environment without `SHIELD_` variables but for their
directory, the bash that runs the installer and the shell of the other scripts, and what keeps the
commands of a script from their work, of the variables of a file that are no `SHIELD_` variables. -/
structure Site where
  candidates : List Str
  there : Str → Bool
  ambient : Environment
  bash : Interpreter
  shell : Interpreter
  hinders : List (Str × Str) → Option Str
  plain : ∀ dir ∈ candidates, 0x0A ∉ dir
  unset : ∀ k ∈ ambient, shieldKey k = true → k = presetDir
  single : ∀ v, ambient.lookup presetDir = some v → 0x0A ∉ v
  free : hinders [] = none

def Site.install (site : Site) : Install := (installed site.candidates site.there).toInstall

def others (text : Str) : List (Str × Str) := (settings text).filter fun entry => !shieldKey entry.1

def Site.unhindered (site : Site) (text : Str) : Except Str Unit :=
  match site.hinders (others text) with
  | some message => .error message
  | none => .ok ()

/-! ## The two scripts -/

/-- Whether `action-env`, which both scripts run, succeeds on a custom layer. -/
def actionEnv (sh : Interpreter) (install : Install) (env : Environment) (custom : Presets → Environment → Str) :
    Except Str Unit := do
  let (env,presets) ← choose install env
  validate sh presets (custom presets env)

/-- To bash `NAME+=value` appends to a variable. -/
def appends (key : Str) : Bool := key.getLast? == some 0x2B

def target (key : Str) : Str := if appends key then key.dropLast else key

def exportedEntry (bash : Interpreter) (env : Environment) (entry : Str × Str) : Environment :=
  let value := if appends entry.1 then (env.lookup (target entry.1)).getD [] ++ entry.2 else entry.2
  if bash.takes (target entry.1) value then env.insert (target entry.1) value else env

/-- `export "$key=$value"`, under `set -e`. -/
def exportEntry (bash : Interpreter) (env : Environment) (entry : Str × Str) : Except Str Environment :=
  match bash.refuses (target entry.1) entry.2 with
  | some message => .error message
  | none => .ok (exportedEntry bash env entry)

def Site.exported (site : Site) (text : Str) : Except Str Environment :=
  (settings text).foldlM (exportEntry site.bash) site.ambient

/-- `install-fail2ban.sh`: the keys of the file are exported, and the jails rendered. -/
def installFail2ban (site : Site) (text : Str) : Except Str Str := do
  let env ← site.exported text
  site.unhindered text
  actionEnv site.shell site.install env fun _ _ => parseEnvfile text
  return render env

/-- Of the environment that a file gives a shell takes the names that are identifiers. -/
def shellEntries (text : Str) : List (Str × Str) := (settings text).filter fun entry => isIdentifier entry.1

def Site.environment (site : Site) (text : Str) : Environment := assignAll site.ambient (shellEntries text)

/-- `f2b-entrypoint.sh`: what the resolver prints is evaluated, and the jails rendered. -/
def f2bEntrypoint (site : Site) (text : Str) : Except Str Str := do
  site.unhindered text
  let printed ← resolveEnv site.shell site.install (site.environment text) true
  let env ← evaluate site.shell (site.environment text) (captured printed)
  actionEnv site.shell site.install env collectFromEnv
  return render env

/-! ## What is rendered -/

section Render
variable {keys : List Str} {env : Environment}

theorem envsubst_literal {s : Str} (plain : 0x24 ∉ s) (rest : Str) :
    envsubst keys env (s ++ rest) = s ++ envsubst keys env rest := by
  have free : ∀ u ∈ s, (u == 0x24) = false := fun u member => by simpa using fun same : u = 0x24 => plain (same ▸ member)
  rw [envsubst,splitOnP_free_append free,envsubst]
  cases split : rest.splitOnP fun u => u == 0x24 with
  | nil => exact absurd split (List.splitOnP_ne_nil _ rest)
  | cons first pieces => simp

theorem substitute_braced {key : Str} (named : isIdentifier key = true) (own : key ∈ keys) (rest : Str) :
    substitute keys env (0x7B::key ++ 0x7D::rest) = (env.lookup key).getD [] ++ rest := by
  have units : ∀ u ∈ key, isNameUnit u = true := by
    rw [isIdentifier,Bool.and_eq_true,List.all_eq_true] at named
    exact named.2
  have name : (key ++ 0x7D::rest).takeWhile isNameUnit = key := by
    rw [List.takeWhile_append_of_pos units,List.takeWhile_cons_of_neg (by decide),List.append_nil]
  have after : (key ++ 0x7D::rest).dropWhile isNameUnit = 0x7D::rest := by
    rw [List.dropWhile_append_of_pos units,List.dropWhile_cons_of_neg (by decide)]
  rw [List.cons_append,substitute]
  have value : (env.lookup ((key ++ 0x7D::rest).takeWhile isNameUnit)).getD [] = (env.lookup key).getD [] :=
    congrArg (fun k => (env.lookup k).getD []) name
  simp only [name,after,value]
  rw [if_pos (by simp [named,own])]
  rfl

theorem envsubst_braced {key : Str} (named : isIdentifier key = true) (own : key ∈ keys) (rest : Str) :
    envsubst keys env (str "$\x7b" ++ key ++ str "\x7d" ++ rest) = (env.lookup key).getD [] ++ envsubst keys env rest := by
  have text : str "$\x7b" ++ key ++ str "\x7d" ++ rest = 0x24::((0x7B::key ++ [0x7D]) ++ rest) := by
    have opening : str "$\x7b" = [0x24,0x7B] := by decide
    have closing : str "\x7d" = [0x7D] := by decide
    simp [opening,closing]
  have plain : 0x24 ∉ key := identifier_free named (by decide)
  have free : ∀ u ∈ 0x7B::key ++ [0x7D], (u == 0x24) = false := by
    intro u member
    simp only [List.mem_append,List.mem_cons,List.not_mem_nil,or_false] at member
    rcases member with (rfl | inside) | rfl
    · rfl
    · simpa using fun same : u = 0x24 => plain (same ▸ inside)
    · rfl
  rw [text,envsubst,List.splitOnP_cons_eq_if_modifyHead,if_pos (by rfl),splitOnP_free_append free,envsubst]
  cases split : rest.splitOnP fun u => u == 0x24 with
  | nil => exact absurd split (List.splitOnP_ne_nil _ rest)
  | cons first pieces =>
    have braced := @substitute_braced keys env key named own first
    simp only [List.modifyHead_cons,List.nil_append,List.flatMap_cons,List.append_assoc,List.singleton_append] at braced ⊢
    rw [braced,List.append_assoc]

end Render

def TemplateLine.filled (value : Str → Str) (line : TemplateLine) : Str := line.text ++ (line.key.map value).getD []

def jails (value : Str → Str) : Str := written 0x0A (template.map (TemplateLine.filled value))

theorem template_plain : ∀ line ∈ template, 0x24 ∉ line.text ∧ 0x0A ∉ line.text := by decide +kernel

theorem template_keyed {line : TemplateLine} (own : line ∈ template) {key : Str} (some : line.key = some key) :
    isIdentifier key = true ∧ key ∈ placeholders := by
  have keyed : ∀ line ∈ template, line.key.all fun key => isIdentifier key && placeholders.contains key := by
    decide +kernel
  simpa [some] using keyed line own

theorem envsubst_line {line : TemplateLine} (own : line ∈ template) (env : Environment) (rest : Str) :
    envsubst placeholders env (line.written ++ rest) =
      line.filled (fun k => (env.lookup k).getD []) ++ envsubst placeholders env rest := by
  obtain ⟨plain,_⟩ := template_plain line own
  rw [TemplateLine.written,TemplateLine.filled]
  cases key : line.key with
  | none => simp [envsubst_literal plain]
  | some key' =>
    obtain ⟨named,listed⟩ := template_keyed own key
    have braced := @envsubst_braced placeholders env key' named listed rest
    simp only [List.append_assoc] at braced ⊢
    rw [envsubst_literal plain,braced]
    rfl

/-- Every variable of the template is replaced by its value, or by nothing. -/
theorem render_jails (env : Environment) : render env = jails fun k => (env.lookup k).getD [] := by
  have lines (lines : List TemplateLine) (own : ∀ line ∈ lines, line ∈ template) :
      envsubst placeholders env (written 0x0A (lines.map TemplateLine.written)) =
        written 0x0A (lines.map (TemplateLine.filled fun k => (env.lookup k).getD [])) := by
    induction lines with
    | nil => rfl
    | cons line rest ih =>
      have later := ih fun other member => own other (List.mem_cons_of_mem line member)
      have stop : 0x24 ∉ [(0x0A : UInt16)] := by decide
      rw [written,List.map_cons,List.flatMap_cons,List.append_assoc,envsubst_line (own line (by simp)),
        envsubst_literal stop,← written,later]
      simp [written]
  exact lines template fun _ member => member

theorem records_jails {value : Str → Str} (single : ∀ k ∈ placeholders, 0x0A ∉ value k) :
    records newline (jails value) = template.map (TemplateLine.filled value) := by
  refine records_lines_written fun text member => ?_
  obtain ⟨line,own,rfl⟩ := List.mem_map.mp member
  obtain ⟨_,free⟩ := template_plain line own
  rw [TemplateLine.filled]
  cases key : line.key with
  | none => simpa using free
  | some key' => simpa [free] using single key' (template_keyed own key).2

theorem jails_congr {value other : Str → Str} (same : ∀ k ∈ placeholders, value k = other k) : jails value = jails other := by
  rw [jails,jails]
  congr 1
  refine List.map_congr_left fun line own => ?_
  rw [TemplateLine.filled,TemplateLine.filled]
  cases key : line.key with
  | none => rfl
  | some key' => simp [same key' (template_keyed own key).2]

theorem jails_inj {value other : Str → Str} (single : ∀ k ∈ placeholders, 0x0A ∉ value k)
    (single' : ∀ k ∈ placeholders, 0x0A ∉ other k) (same : jails value = jails other) :
    ∀ k ∈ placeholders, value k = other k := by
  have used : ∀ k ∈ placeholders, ∃ line ∈ template, line.key = some k := by decide +kernel
  intro k own
  obtain ⟨line,member,key⟩ := used k own
  have lines : template.map (TemplateLine.filled value) = template.map (TemplateLine.filled other) := by
    rw [← records_jails single,same,records_jails single']
  have filled := List.map_inj_left.mp lines line member
  rw [TemplateLine.filled,TemplateLine.filled,key] at filled
  exact List.append_cancel_left filled

/-! ## The environments -/

section Choose
variable {sh : Interpreter} {install : Install} {env env' after : Environment} {presets : Presets}
  (chosen : choose install env = .ok (after,presets))
include chosen

theorem choose_after : after = env ∨ ∃ dir ∈ install.candidates, after = env.insert presetDir dir := by
  rcases choose_cases chosen with ⟨_,_,rfl⟩ | ⟨_,dir,found,_,rfl⟩
  · exact Or.inl rfl
  · split_ifs
    · exact Or.inr ⟨dir,List.mem_of_find?_eq_some found,rfl⟩
    · exact Or.inl rfl

/-- The presets are chosen again in an environment with the directory that was chosen. -/
theorem choose_again (same : env'.lookup presetDir = after.lookup presetDir) :
    ∃ after', choose install env' = .ok (after',presets) := by
  rcases choose_cases chosen with ⟨given,held,rfl⟩ | ⟨none,dir,found,held,rfl⟩
  · refine ⟨env',?_⟩
    simp only [choose,same]
    rw [if_pos given,held]
  · by_cases named : (env'.lookup presetDir).getD [] = []
    · refine ⟨if presetDir ∈ env' then env'.insert presetDir dir else env',?_⟩
      simp only [choose,named]
      rw [if_neg (by simp),found]
      simp only [held]
    · split_ifs at same with inside
      · rw [AList.lookup_insert] at same
        refine ⟨env',?_⟩
        simp only [choose,same,Option.getD_some] at named ⊢
        rw [if_pos named,held]
      · rw [same] at named
        exact absurd none named

theorem actionEnv_chosen (custom : Presets → Environment → Str) :
    actionEnv sh install env custom = validate sh presets (custom presets after) := by
  rw [actionEnv,chosen]
  rfl

theorem resolveFile_chosen (shell : Bool) (text : Str) :
    resolveFile sh install env shell text = resolve sh presets shell (parseEnvfile text) := by
  rw [resolveFile,chosen]
  rfl

theorem resolveEnv_chosen (shell : Bool) :
    resolveEnv sh install env shell = resolve sh presets shell (collectFromEnv presets after) := by
  rw [resolveEnv,chosen]
  rfl

end Choose

theorem shellEntries_proper (text : Str) : Proper (shellEntries text) := by
  intro entry member
  obtain ⟨own,named⟩ := List.mem_filter.mp member
  exact ⟨named,settings_single own⟩

theorem last_shellEntries {k : Str} (named : isIdentifier k = true) (text : Str) :
    last (shellEntries text) k = last (settings text) k := by
  rw [last,last,shellEntries,← List.filter_reverse,List.find?_filter]
  congr 2
  funext entry
  by_cases own : entry.1 = k
  · simp [own,named]
  · simp [own]

section Site
variable (site : Site) (text : Str)

theorem presetDir_proper : isIdentifier presetDir = true ∧ shieldKey presetDir = true := by decide

theorem ambient_holds : Holds site.ambient := by
  refine ⟨fun k inside shield => ?_,fun k v shield found => ?_⟩
  · rw [site.unset k inside shield]
    exact presetDir_proper.1
  · have own := site.unset k (AList.lookup_isSome.mp (Option.isSome_of_eq_some found)) shield
    subst own
    exact site.single v found

theorem started_holds : Holds (site.environment text) := foldl_holds (shellEntries_proper text) (ambient_holds site)

theorem environment_value {k : Str} (shield : shieldKey k = true) (other : k ≠ presetDir) :
    (site.environment text).lookup k = last (shellEntries text) k := by
  have absent : k ∉ site.ambient := fun inside => other (site.unset k inside shield)
  rw [Site.environment,assignAll,lookup_foldl,AList.lookup_eq_none.mpr absent,Option.or_none]

variable {site} {env after : Environment} {presets : Presets} (chosen : choose site.install env = .ok (after,presets))
include chosen

theorem chosen_shipped : ∃ path, presets = (shipped path).toPresets := by
  obtain ⟨dir,held⟩ := choose_presets chosen
  simp only [Site.install,installed] at held
  split_ifs at held
  exact ⟨dir,(Option.some.inj held).symm⟩

theorem chosen_holds (holds : Holds env) : Holds after := by
  rcases choose_after chosen with rfl | ⟨dir,candidate,rfl⟩
  · exact holds
  · exact insert_holds holds presetDir_proper.1 (site.plain dir candidate)

theorem chosen_lookup {k : Str} (other : k ≠ presetDir) : after.lookup k = env.lookup k := by
  rcases choose_after chosen with rfl | ⟨dir,_,rfl⟩
  · rfl
  · exact AList.lookup_insert_ne other

theorem chosen_none {k : Str} (none : after.lookup k = none) : env.lookup k = .none := by
  rcases choose_after chosen with rfl | ⟨dir,_,rfl⟩
  · exact none
  · exact (AList.lookup_insert_eq_none.mp none).2

end Site

/-! ## What the container makes of its environment -/

/-- No preset has a key that says where the presets are, or which are taken. -/
theorem selects_unknown (path : Str) {k : Str} (selects : Selects k ∨ k = presetDir) : ¬ (shipped path).Defines k := by
  have others : ∀ part ∈ sections, ∀ row ∈ part.2, row.key ≠ "SHIELD_PROFILES" ∧ row.key ≠ "SHIELD_PRESET_DIR" := by
    decide +kernel
  rw [defines_iff]
  rintro ⟨part,own,row,within,rfl⟩
  obtain ⟨profiles,dir⟩ := others part own row within
  rcases selects with (same | ⟨_,suffix⟩) | same
  · exact profiles (str_injective same)
  · rw [← List.isSuffixOf_iff_suffix,(rows_proper part own row within).1.2.2] at suffix
    exact Bool.false_ne_true suffix
  · exact dir (str_injective same)

theorem selects_shield {k : Str} (selects : Selects k) : shieldKey k = true ∧ k ≠ presetDir := by
  rcases selects with rfl | ⟨shield,suffix⟩
  · decide
  · refine ⟨shield,?_⟩
    rintro rfl
    exact absurd suffix (by decide)

section Container
variable {sh : Interpreter} {site : Site} {text path : Str} {after : Environment}

def collected (path : Str) (after : Environment) : List (Str × Str) := envLayer (shipped path).toPresets after

/-- The environment after what the resolver prints of a layer. -/
def evaluated (sh : Interpreter) (env : Environment) (path : Str) (after : Environment) : Environment :=
  assignAll env (readEntries sh (shipped path) (collected path after))

theorem collected_proper (path : Str) (holds : Holds after) : Proper (collected path after) :=
  envLayer_proper (fun _ => shipped_shield path) holds

theorem last_collected (holds : Holds after) {k : Str} (shield : shieldKey k = true) :
    last (collected path after) k = after.lookup k := by
  rw [collected,last_envLayer (catalog_named _) (fun _ => shipped_shield path) holds,if_pos shield]

theorem collected_text (path : Str) (after : Environment) :
    collectFromEnv (shipped path).toPresets after = written 0x0A ((collected path after).map tabbed) :=
  collectFromEnv_layer (catalog_named _)

variable (chosen : choose site.install (site.environment text) = .ok (after,(shipped path).toPresets))
include chosen

theorem after_holds : Holds after := chosen_holds chosen (started_holds site text)

theorem evaluated_holds : Holds (evaluated sh (site.environment text) path after) := by
  have proper := collected_proper path (after_holds chosen)
  exact foldl_holds (resolved_proper proper _) (started_holds site text)

theorem evaluated_unknown {k : Str} (shield : shieldKey k = true) (unknown : ¬ (shipped path).Defines k) :
    (evaluated sh (site.environment text) path after).lookup k = after.lookup k := by
  rw [evaluated,assignAll,lookup_foldl,last_unknown (readScopes_shipped sh path _) unknown,last_collected (after_holds chosen) shield]
  cases found : after.lookup k with
  | some v => rfl
  | none => rw [chosen_none chosen found]; rfl

theorem evaluated_core {value : Row → String} {row : Row}
    (level : column (levelOf (collected path after) (str "core")) = some value) (member : row ∈ coreRows) :
    (evaluated sh (site.environment text) path after).lookup (str row.key) =
      some ((last (shellEntries text) (str row.key)).getD (str (value row))) := by
  have shield := (rows_proper _ List.mem_cons_self row member).1.2.1
  have other : str row.key ≠ presetDir := fun same =>
    selects_unknown path (Or.inr same) (core_defined member path)
  rw [evaluated,assignAll,lookup_foldl,last_core level member sh path,last_collected (after_holds chosen) shield,
    chosen_lookup chosen other,environment_value site text shield other]
  rfl

theorem last_selected {k : Str} (selects : Selects k) : last (collected path after) k = last (shellEntries text) k := by
  obtain ⟨shield,other⟩ := selects_shield selects
  rw [last_collected (after_holds chosen) shield,chosen_lookup chosen other,environment_value site text shield other]

theorem core_level (valid : validate sh (shipped path).toPresets (collectFromEnv (shipped path).toPresets after) = .ok ()) :
    ∃ value, column (levelOf (collected path after) (str "core")) = some value ∧
      column (levelOf (shellEntries text) (str "core")) = some value := by
  have proper := collected_proper path (after_holds chosen)
  rw [collected_text] at valid
  obtain ⟨_,level,text,found,held⟩ := validate_iff.mp valid (str "core") List.mem_cons_self
  obtain ⟨preset,own,_⟩ := (shipped path).file_lines (shipped path).core held
  have lines : presetLines (str "core") level = some preset := own
  obtain ⟨rows,value,_,levels,_⟩ := presetLines_entries lines
  rw [(levelFor_ok proper.legible core_spoken (by decide) found).1] at levels
  exact ⟨value,levels,levelOf_same (fun _ => last_selected chosen) (str "core") ▸ levels⟩

omit chosen in
/-- Every key that is printed of `SHIELD_` variables is one. -/
theorem readEntries_shield (sh : Interpreter) (path : Str) {layer : List (Str × Str)} (proper : Proper layer)
    (shield : ∀ entry ∈ layer, shieldKey entry.1 = true) :
    ∀ entry ∈ readEntries sh (shipped path) layer, isIdentifier entry.1 = true ∧ shieldKey entry.1 = true := by
  intro entry member
  refine ⟨(resolved_proper proper _ entry member).1,?_⟩
  rcases List.mem_append.mp member with read | extra
  · obtain ⟨scope,_,within⟩ := List.mem_flatMap.mp read
    obtain ⟨preset,lines,value,inside,_⟩ := mem_scopeEntries.mp within
    obtain ⟨rows,value,own,_,same⟩ := presetLines_entries lines
    rw [same] at inside
    obtain ⟨row,listed,key⟩ := List.mem_map.mp inside
    rw [← congrArg Prod.fst key]
    exact (rows_proper _ (rowsOf_mem own) row listed).1.2.1
  · exact shield _ (last_mem (mem_extraEntries.mp extra).2)

theorem evaluate_printed {out : Str}
    (printed : resolve sh (shipped path).toPresets true (collectFromEnv (shipped path).toPresets after) = .ok out) :
    evaluate sh (site.environment text) (captured out) = .ok (evaluated sh (site.environment text) path after) := by
  have proper := collected_proper path (after_holds chosen)
  have valid := (resolve_valid printed).1
  rw [collected_text] at printed valid
  rw [resolve_read proper.legible (readScopes_shipped sh path _) valid] at printed
  obtain rfl := Except.ok.inj printed
  refine evaluate_shield (readEntries_shield sh path proper fun entry member => ?_) _
  exact (mem_envLayer (fun _ => shipped_shield path) member).1

/-- What is evaluated leaves the profiles and the levels as they were. -/
theorem actionEnv_evaluated
    (valid : validate sh (shipped path).toPresets (collectFromEnv (shipped path).toPresets after) = .ok ()) :
    actionEnv sh site.install (evaluated sh (site.environment text) path after) collectFromEnv = .ok () := by
  have known := selects_unknown path (Or.inr rfl)
  have kept := @evaluated_unknown sh site text path after chosen presetDir presetDir_proper.2 known
  obtain ⟨after',again⟩ := choose_again chosen kept
  have holds := after_holds chosen
  have holds' := chosen_holds again (evaluated_holds chosen)
  have same (k : Str) (selects : Selects k) : last (collected path after) k = last (collected path after') k := by
    obtain ⟨shield,other⟩ := selects_shield selects
    rw [last_collected holds shield,last_collected holds' shield,chosen_lookup again other,
      evaluated_unknown chosen shield (selects_unknown path (Or.inl selects))]
  rw [collected_text,validate_same (collected_proper path holds) (collected_proper path holds') same,← collected_text] at valid
  rw [actionEnv_chosen again,valid]

end Container

def ignoreIp : Str := str "SHIELD_F2B_IGNOREIP"

/-- A variable of the template is a key of core, empty in every preset or in none. -/
theorem placeholder_row {k : Str} (own : k ∈ placeholders) : ∃ row ∈ coreRows, str row.key = k ∧
    ∀ level value, column level = some value → (str (value row) = [] ↔ k = ignoreIp) := by
  obtain ⟨key,listed,rfl⟩ := List.mem_map.mp own
  have rows : ∀ key ∈ ["SHIELD_F2B_FINDTIME","SHIELD_F2B_BANTIME","SHIELD_F2B_IGNOREIP","SHIELD_F2B_IGNORESELF",
      "SHIELD_F2B_HANDSHAKE_MAXRETRY","SHIELD_F2B_VERDICT_MAXRETRY","SHIELD_F2B_ABUSE_MAXRETRY",
      "SHIELD_F2B_SCAN_MAXRETRY","SHIELD_F2B_CONNRATE_MAXRETRY","SHIELD_F2B_CONN_MAXRETRY"], ∃ row ∈ coreRows,
      row.key = key ∧ (row.strict = "" ↔ key = "SHIELD_F2B_IGNOREIP") ∧ (row.default = "" ↔ key = "SHIELD_F2B_IGNOREIP") ∧
        (row.loose = "" ↔ key = "SHIELD_F2B_IGNOREIP") := by
    decide +kernel
  obtain ⟨row,member,rfl,strict,default,loose⟩ := rows key listed
  have texts (s : String) : str s = [] ↔ s = "" := str_injective.eq_iff' (rfl : str "" = [])
  refine ⟨row,member,rfl,fun level value held => ?_⟩
  rw [texts,ignoreIp,str_injective.eq_iff]
  rw [column] at held
  split_ifs at held <;> obtain rfl := Option.some.inj held
  · exact strict
  · exact default
  · exact loose

theorem placeholder_shield {k : Str} (own : k ∈ placeholders) :
    isIdentifier k = true ∧ shieldKey k = true ∧ k ≠ presetDir := by
  obtain ⟨row,member,rfl,_⟩ := placeholder_row own
  obtain ⟨named,shield,_⟩ := (rows_proper _ List.mem_cons_self row member).1
  refine ⟨named,shield,fun same => ?_⟩
  exact selects_unknown [] (Or.inr same) (core_defined member [])

/-- The value due to a variable of the template. -/
theorem due_placeholder {layer : List (Str × Str)} {value : Row → String}
    (level : column (levelOf layer (str "core")) = some value) {k : Str} (own : k ∈ placeholders) (path v : Str) :
    Due (shipped path) layer k v ↔ v = (last layer k).getD (presetValue layer k) := by
  obtain ⟨row,member,rfl,_⟩ := placeholder_row own
  rw [due_core level member path,presetValue_row level member]

theorem ok_bind {α β ε : Type} (a : α) (f : α → Except ε β) : (Except.ok a >>= f) = f a := rfl

theorem bind_ok {α β ε : Type} {x : Except ε α} {f : α → Except ε β} {b : β} (done : x >>= f = .ok b) :
    ∃ a, x = .ok a ∧ f a = .ok b := by
  cases x with
  | error e => cases done
  | ok a => exact ⟨a,rfl,done⟩

/-! ## What the host makes of its file -/

/-- What the lines with a `+` append to a variable after it was last set. -/
def appended (layer : List (Str × Str)) (k : Str) : Str :=
  layer.foldl (fun text entry => if entry.1 = k then [] else if entry.1 = k ++ [0x2B] then text ++ entry.2 else text) []

theorem target_iff {k : Str} (named : isIdentifier k = true) (key : Str) :
    target key = k ↔ key = k ∨ key = k ++ [0x2B] := by
  have last : k.getLast? ≠ some 0x2B := fun plus => identifier_free named (by decide) (List.mem_of_getLast? plus)
  rw [target]
  by_cases plus : appends key = true
  · rw [if_pos plus]
    rw [appends,beq_iff_eq] at plus
    obtain ⟨name,rfl⟩ := List.getLast?_eq_some_iff.mp plus
    have other : name ++ [0x2B] ≠ k := by
      rintro rfl
      exact last plus
    simp [other]
  · rw [if_neg plus]
    have other : key ≠ k ++ [0x2B] := by
      rintro rfl
      simp [appends] at plus
    simp [other]

theorem appended_concat (layer : List (Str × Str)) (entry : Str × Str) (k : Str) :
    appended (layer ++ [entry]) k = if entry.1 = k then []
      else if entry.1 = k ++ [0x2B] then appended layer k ++ entry.2 else appended layer k := by
  rw [appended,List.foldl_append]
  rfl

theorem appended_single {layer : List (Str × Str)} (single : ∀ entry ∈ layer, 0x0A ∉ entry.2) (k : Str) :
    0x0A ∉ appended layer k := by
  induction layer using List.reverseRecOn with
  | nil => exact List.not_mem_nil
  | append_singleton earlier entry ih =>
    have before := ih fun other member => single other (by simp [member])
    rw [appended_concat]
    split_ifs
    · exact List.not_mem_nil
    · simp [before,single entry]
    · exact before

theorem appended_none {layer : List (Str × Str)} (plain : ∀ entry ∈ layer, appends entry.1 = false) (k : Str) :
    appended layer k = [] := by
  induction layer using List.reverseRecOn with
  | nil => rfl
  | append_singleton earlier entry ih =>
    have other : entry.1 ≠ k ++ [0x2B] := by
      intro plus
      have adds := plain entry (by simp)
      simp [appends,plus] at adds
    rw [appended_concat,if_neg other,ih fun other member => plain other (by simp [member]),ite_self]

theorem identifier_appends {k : Str} (named : isIdentifier k = true) : appends k = false := by
  rw [appends,beq_eq_false_iff_ne]
  exact fun plus => identifier_free named (by decide) (List.mem_of_getLast? plus)

section Host
variable {bash : Interpreter} {layer : List (Str × Str)}

theorem exportEntry_all (taken : ∀ entry ∈ layer, bash.refuses (target entry.1) entry.2 = none) (env : Environment) :
    layer.foldlM (exportEntry bash) env = .ok (layer.foldl (exportedEntry bash) env) := by
  induction layer generalizing env with
  | nil => rfl
  | cons entry rest ih =>
    rw [List.foldlM_cons,exportEntry,taken entry (by simp)]
    exact ih (fun other member => taken other (by simp [member])) _

theorem exportEntry_taken {env env' : Environment} (done : layer.foldlM (exportEntry bash) env = .ok env') :
    ∀ entry ∈ layer, bash.refuses (target entry.1) entry.2 = none := by
  induction layer generalizing env with
  | nil => simp
  | cons entry rest ih =>
    rw [List.foldlM_cons,exportEntry] at done
    cases refused : bash.refuses (target entry.1) entry.2 with
    | some message =>
      rw [refused] at done
      cases done
    | none =>
      rw [refused] at done
      exact List.forall_mem_cons.mpr ⟨refused,ih done⟩

theorem exportedEntry_set {entry : Str × Str} (named : isIdentifier (target entry.1) = true)
    (shield : shieldKey (target entry.1) = true) (env : Environment) :
    exportedEntry bash env entry = env.insert (target entry.1)
      (if appends entry.1 then (env.lookup (target entry.1)).getD [] ++ entry.2 else entry.2) :=
  if_pos (bash.shield _ _ named shield)

theorem exportedEntry_other {k : Str} {entry : Str × Str} (other : k ≠ target entry.1) (env : Environment) :
    (exportedEntry bash env entry).lookup k = env.lookup k := by
  rw [exportedEntry]
  split_ifs
  · exact AList.lookup_insert_ne other
  · rfl
  · exact AList.lookup_insert_ne other
  · rfl

/-- A `SHIELD_` variable has its last value, and what was appended to it later. -/
theorem exported_lookup {k : Str} (named : isIdentifier k = true) (shield : shieldKey k = true) {env : Environment}
    (bare : env.lookup k = none) :
    ((layer.foldl (exportedEntry bash) env).lookup k).getD [] = (last layer k).getD [] ++ appended layer k := by
  have plain := identifier_appends named
  induction layer using List.reverseRecOn with
  | nil =>
    rw [List.foldl_nil,bare]
    rfl
  | append_singleton earlier entry ih =>
    rw [List.foldl_append,List.foldl_cons,List.foldl_nil,last_concat,appended_concat]
    by_cases sets : target entry.1 = k
    · obtain rfl := sets
      rw [exportedEntry_set named shield,AList.lookup_insert,Option.getD_some]
      rcases (target_iff named _).mp rfl with own | plus
      · rw [← own] at plain ⊢
        simp [plain]
      · have adds : appends entry.1 = true := by rw [appends,plus]; simp
        have other : entry.1 ≠ target entry.1 := by
          intro same
          rw [← same,adds] at plain
          contradiction
        rw [if_pos adds,if_neg other,if_neg other,if_pos plus,ih,List.append_assoc]
    · have other : entry.1 ≠ k ∧ entry.1 ≠ k ++ [0x2B] := by
        rw [← not_or,← target_iff named]
        exact sets
      rw [exportedEntry_other (Ne.symm sets),if_neg other.1,if_neg other.1,if_neg other.2,ih]

end Host

/-! ## The same jails -/

/-- Both scripts succeed and give every variable the value that is due to it. -/
def Agree (path text : Str) (host container : Except Str Str) : Prop :=
  ∃ value : Str → Str, (∀ k ∈ placeholders, Due (shipped path) (divided text) k (value k)) ∧
    host = .ok (jails value) ∧ container = .ok (jails value)

/-- The bash of the host refuses no key, no variable hinders a script, and the host has for every
variable of the template what the file sets it to or, where it does not, what the preset of core
does. -/
structure Prepared (host container : Site) (text : Str) : Prop where
  taken : ∀ entry ∈ settings text, host.bash.refuses (target entry.1) entry.2 = none
  free : host.hinders (others text) = none ∧ container.hinders (others text) = none
  complete : ∀ k ∈ placeholders, appended (settings text) k =
    if (last (settings text) k).isSome then [] else presetValue (settings text) k

theorem unhindered_ok {site : Site} {text : Str} : site.unhindered text = .ok () ↔ site.hinders (others text) = none := by
  rw [Site.unhindered]
  cases site.hinders (others text) <;> simp

/-- The container gives every variable the value that is due to it. -/
theorem f2bEntrypoint_due (path : Str) (site : Site) (text : Str)
    (starts : ∃ out, resolveEnv site.shell site.install (site.environment text) true = .ok out) :
    (∃ value, column (levelOf (shellEntries text) (str "core")) = some value) ∧
      ∃ value : Str → Str, (∀ k ∈ placeholders, Due (shipped path) (shellEntries text) k (value k)) ∧
        f2bEntrypoint site text = (site.unhindered text).map fun _ => jails value := by
  obtain ⟨out,resolves⟩ := starts
  obtain ⟨⟨after,presets⟩,chosen,printed⟩ := bind_ok resolves
  obtain ⟨dir,rfl⟩ := chosen_shipped chosen
  have valid := (resolve_valid printed).1
  obtain ⟨value,level,level'⟩ := core_level chosen valid
  refine ⟨⟨value,level'⟩,fun k => ((evaluated site.shell (site.environment text) dir after).lookup k).getD [],
    fun k own => ?_,?_⟩
  · obtain ⟨row,member,rfl,_⟩ := placeholder_row own
    have found := @evaluated_core site.shell site text dir after chosen _ _ level member
    simp only [due_core level' member,found,Option.getD_some]
  · rw [f2bEntrypoint,resolves,← render_jails]
    cases site.unhindered text with
    | error message => rfl
    | ok _ =>
      rw [ok_bind,ok_bind,evaluate_printed chosen printed,ok_bind,actionEnv_evaluated chosen valid]
      rfl

section Text
variable {site : Site} {text : Str} (taken : ∀ entry ∈ settings text, site.bash.refuses (target entry.1) entry.2 = none)
include taken

/-- A key that bash takes, or appends to, has no tab in it. -/
theorem taken_divided : divided text = settings text := by
  refine divided_untabbed fun entry member tab => ?_
  have named := site.bash.named _ _ (taken entry member)
  have free := (identifier_stops named).2.1
  rw [target] at free
  split_ifs at free with plus
  · rw [appends,beq_iff_eq] at plus
    obtain ⟨name,own⟩ := List.getLast?_eq_some_iff.mp plus
    rw [own,List.dropLast_concat] at free
    rw [own] at tab
    simp [free] at tab
  · exact free tab

/-- The host gives every variable what it has in the file, and none without it. -/
theorem installFail2ban_file
    (installs : ∀ env, site.exported text = .ok env → ∃ out, resolveFile site.shell site.install env true text = .ok out) :
    installFail2ban site text = (site.unhindered text).map fun _ =>
      jails fun k => (last (settings text) k).getD [] ++ appended (settings text) k := by
  have exported := exportEntry_all taken site.ambient
  obtain ⟨out,resolves⟩ := installs _ exported
  obtain ⟨⟨after,presets⟩,chosen,printed⟩ := bind_ok resolves
  have valid : validate site.shell presets (parseEnvfile text) = .ok () := (resolve_valid printed).1
  have values : render ((settings text).foldl (exportedEntry site.bash) site.ambient) =
      jails fun k => (last (settings text) k).getD [] ++ appended (settings text) k := by
    rw [render_jails]
    refine jails_congr fun k own => ?_
    obtain ⟨named,shield,other⟩ := placeholder_shield own
    have absent : k ∉ site.ambient := fun inside => other (site.unset k inside shield)
    exact exported_lookup named shield (AList.lookup_eq_none.mpr absent)
  rw [installFail2ban,Site.exported,exported,ok_bind,← values]
  cases site.unhindered text with
  | error message => rfl
  | ok _ =>
    rw [ok_bind,actionEnv_chosen chosen,valid]
    rfl

/-- The value due of the file to a variable of the template. -/
theorem due_text {value : Row → String} (level : column (levelOf (settings text) (str "core")) = some value)
    {k : Str} (own : k ∈ placeholders) (path v : Str) :
    Due (shipped path) (divided text) k v ↔ v = (last (settings text) k).getD (presetValue (settings text) k) := by
  rw [taken_divided taken,due_placeholder level own]

end Text

/-- The level of core is the one that the environment gives. -/
theorem level_shell (text : Str) : levelOf (shellEntries text) (str "core") = levelOf (settings text) (str "core") := by
  have general : isIdentifier (str "SHIELD_PRESET") = true := by decide
  simp only [levelOf,if_true,last_shellEntries general]

theorem due_shell {text : Str} {value : Row → String} (level : column (levelOf (settings text) (str "core")) = some value)
    {k : Str} (own : k ∈ placeholders) (path v : Str) :
    Due (shipped path) (shellEntries text) k v ↔ v = (last (settings text) k).getD (presetValue (settings text) k) := by
  have core : presetValue (shellEntries text) k = presetValue (settings text) k := by
    rw [presetValue,level_shell,presetValue]
  rw [due_placeholder (level_shell text ▸ level) own,core,last_shellEntries (placeholder_shield own).1]

theorem settings_last {text k w : Str} (single : 0x0A ∉ w) : 0x0A ∉ (last (settings text) k).getD w := by
  cases found : last (settings text) k with
  | none => exact single
  | some v => exact settings_single (last_mem found)

theorem presetValue_single {layer : List (Str × Str)} {value : Row → String}
    (level : column (levelOf layer (str "core")) = some value) {k : Str} (own : k ∈ placeholders) :
    0x0A ∉ presetValue layer k := by
  obtain ⟨row,member,rfl,_⟩ := placeholder_row own
  rw [presetValue_row level member]
  exact column_single level (List.mem_cons_self : (str "core",coreRows) ∈ sections) member

theorem map_ok {α β ε : Type} {x : Except ε α} {f : α → β} {b : β} (done : x.map f = .ok b) :
    ∃ a, x = .ok a ∧ f a = b := by
  cases x with
  | error e => cases done
  | ok a => exact ⟨a,rfl,Except.ok.inj done⟩

/-- Where no line appends, the keys that the presets give a value to are to be set. -/
theorem complete_iff {layer : List (Str × Str)} {value : Row → String}
    (level : column (levelOf layer (str "core")) = some value) (plain : ∀ entry ∈ layer, appends entry.1 = false) :
    (∀ k ∈ placeholders, appended layer k = if (last layer k).isSome then [] else presetValue layer k) ↔
      ∀ k ∈ placeholders, k ≠ ignoreIp → k ∈ layer.map Prod.fst := by
  refine forall₂_congr fun k own => ?_
  obtain ⟨row,member,rfl,empty⟩ := placeholder_row own
  rw [appended_none plain,presetValue_row level member,← last_isSome,ne_eq,← empty _ value level]
  generalize str (value row) = given
  cases last layer (str row.key) <;> simp [eq_comm]

section Agree
variable {path text : Str} {host container : Site}
  (installs : ∀ env, host.exported text = .ok env → ∃ out, resolveFile host.shell host.install env true text = .ok out)
  (starts : ∃ out, resolveEnv container.shell container.install (container.environment text) true = .ok out)
include installs starts

theorem agree_prepared (agree : Agree path text (installFail2ban host text) (f2bEntrypoint container text)) :
    Prepared host container text := by
  obtain ⟨⟨column,level⟩,given,_,rendered⟩ := f2bEntrypoint_due path container text starts
  rw [level_shell] at level
  obtain ⟨value,dues,hosts,containers⟩ := agree
  obtain ⟨env,exported,_⟩ := bind_ok hosts
  have taken := exportEntry_taken exported
  rw [installFail2ban_file taken installs] at hosts
  rw [rendered] at containers
  obtain ⟨_,free,same⟩ := map_ok hosts
  obtain ⟨_,free',_⟩ := map_ok containers
  have fits (k : Str) (own : k ∈ placeholders) := (due_text taken level own path (value k)).mp (dues k own)
  have single : ∀ k ∈ placeholders, 0x0A ∉ value k := by
    intro k own
    rw [fits k own]
    exact settings_last (presetValue_single level own)
  have single' : ∀ k ∈ placeholders, 0x0A ∉ (last (settings text) k).getD [] ++ appended (settings text) k := by
    intro k own
    have later := @appended_single (settings text) (fun entry member => settings_single member) k
    simp [settings_last,later]
  refine ⟨taken,⟨unhindered_ok.mp free,unhindered_ok.mp free'⟩,fun k own => ?_⟩
  have host := jails_inj single' single same k own
  rw [fits k own] at host
  cases found : last (settings text) k with
  | none => simpa [found] using host
  | some v => simpa [found] using host

theorem prepared_agree (prepared : Prepared host container text) :
    Agree path text (installFail2ban host text) (f2bEntrypoint container text) := by
  obtain ⟨⟨column,level⟩,given,due,rendered⟩ := f2bEntrypoint_due path container text starts
  rw [level_shell] at level
  obtain ⟨taken,⟨free,free'⟩,complete⟩ := prepared
  rw [installFail2ban_file taken installs,rendered,unhindered_ok.mpr free,unhindered_ok.mpr free']
  refine ⟨given,fun k own => ?_,congrArg Except.ok (jails_congr fun k own => ?_),rfl⟩
  · exact (due_text taken level own path _).mpr ((due_shell level own path _).mp (due k own))
  · rw [(due_shell level own path _).mp (due k own),complete k own]
    cases last (settings text) k <;> simp

end Agree

/-- The host and the container render the same jails, with the values that are due, where bash
takes every key, nothing hinders the scripts, and the file leaves none of the keys to the presets
that they give a value to. -/
theorem jails_agree_iff (path : Str) (host container : Site) (text : Str)
    (installs : ∀ env, host.exported text = .ok env → ∃ out, resolveFile host.shell host.install env true text = .ok out)
    (starts : ∃ out, resolveEnv container.shell container.install (container.environment text) true = .ok out) :
    Agree path text (installFail2ban host text) (f2bEntrypoint container text) ↔ Prepared host container text :=
  ⟨agree_prepared installs starts,prepared_agree installs starts⟩

/-! ## Files -/

def site : Site where
  candidates := [str "/presets"]
  there dir := dir = str "/presets"
  ambient := ∅
  bash := plainShell
  shell := plainShell
  hinders others := if others.any fun entry => entry.1 = str "PATH" then some (str "install: command not found") else none
  plain := by decide +kernel
  unset _ inside := absurd inside (AList.notMem_empty _)
  single _ found := by simp at found
  free := rfl

theorem site_chosen {env : Environment} (unset : (env.lookup presetDir).getD [] = []) :
    ∃ after, choose site.install env = .ok (after,(shipped (str "/presets")).toPresets) := by
  refine ⟨if presetDir ∈ env then env.insert presetDir (str "/presets") else env,?_⟩
  simp only [choose,unset]
  rfl

section Lines
variable (lines : List EnvLine)

theorem shellEntries_file : shellEntries (fileText lines) = entries lines := by
  rw [shellEntries,settings_file,List.filter_eq_self]
  exact fun entry member => (entries_proper lines entry member).1

variable {lines}

/-- Both resolve a file that says nothing of the directory of the presets. -/
theorem site_resolves (unset : last (entries lines) presetDir = none)
    (valid : validate plainShell (shipped (str "/presets")).toPresets (parseEnvfile (fileText lines)) = .ok ()) :
    (∀ env, site.exported (fileText lines) = .ok env →
        ∃ out, resolveFile plainShell site.install env true (fileText lines) = .ok out) ∧
      ∃ out, resolveEnv plainShell site.install (site.environment (fileText lines)) true = .ok out := by
  constructor
  · intro env exported
    have taken := exportEntry_taken exported
    rw [Site.exported,exportEntry_all taken] at exported
    obtain rfl := Except.ok.inj exported
    have bare : presetDir ∉ site.ambient := AList.notMem_empty _
    have given := @exported_lookup site.bash (settings (fileText lines)) presetDir presetDir_proper.1 presetDir_proper.2 _
      (AList.lookup_eq_none.mpr bare)
    rw [settings_file,unset,appended_none fun entry member => identifier_appends (entries_proper lines entry member).1] at given
    rw [settings_file]
    obtain ⟨after,chosen⟩ := site_chosen given
    rw [resolveFile_chosen chosen]
    exact resolve_succeeds valid true
  · have found : ((site.environment (fileText lines)).lookup presetDir).getD [] = [] := by
      have bare : presetDir ∉ site.ambient := AList.notMem_empty _
      rw [Site.environment,assignAll,lookup_foldl,shellEntries_file,unset,AList.lookup_eq_none.mpr bare]
      rfl
    obtain ⟨after,chosen⟩ := site_chosen found
    rw [resolveEnv_chosen chosen]
    refine resolve_succeeds ?_ true
    rw [parseEnvfile,settings_file,← shellEntries_file] at valid
    rw [collected_text,validate_same (collected_proper _ (after_holds chosen)) (shellEntries_proper _)
      fun _ => last_selected chosen,valid]

end Lines

def jailKeys : List String :=
  ["SHIELD_F2B_FINDTIME","SHIELD_F2B_BANTIME","SHIELD_F2B_IGNORESELF","SHIELD_F2B_HANDSHAKE_MAXRETRY",
    "SHIELD_F2B_VERDICT_MAXRETRY","SHIELD_F2B_ABUSE_MAXRETRY","SHIELD_F2B_SCAN_MAXRETRY","SHIELD_F2B_CONNRATE_MAXRETRY",
    "SHIELD_F2B_CONN_MAXRETRY"]

/-- A file that leaves no key of the jails to the presets, and sets another variable. -/
def completeLines : List EnvLine := envLine (str "TZ") (str "UTC")::jailKeys.map fun key => envLine (str key) (str "7")

theorem jails_agree_complete :
    Agree [] (fileText completeLines) (installFail2ban site (fileText completeLines)) (f2bEntrypoint site (fileText completeLines)) := by
  have valid : validate plainShell (shipped (str "/presets")).toPresets (parseEnvfile (fileText completeLines)) = .ok () := by
    decide +kernel
  obtain ⟨installs,starts⟩ := site_resolves (by decide +kernel) valid
  refine (jails_agree_iff [] site site (fileText completeLines) installs starts).mpr ⟨?_,?_,?_⟩
  · rw [settings_file]
    decide +kernel
  · rw [others,settings_file]
    decide +kernel
  · have named : levelOf (entries completeLines) (str "core") = str "default" := by decide +kernel
    have level : column (levelOf (entries completeLines) (str "core")) = some Row.default := named ▸ rfl
    rw [settings_file]
    exact (complete_iff level (by decide +kernel)).mpr (by decide +kernel)

def strfryLines : List EnvLine := [envLine (str "SHIELD_PROFILES") (str "strfry")]

/-- The host leaves every value empty of a file that leaves the keys of the jails to the presets. -/
theorem jails_differ : ¬ ∀ (path : Str) (host container : Site) (text : Str),
    (∀ env, host.exported text = .ok env → ∃ out, resolveFile host.shell host.install env true text = .ok out) →
    (∃ out, resolveEnv container.shell container.install (container.environment text) true = .ok out) →
    Agree path text (installFail2ban host text) (f2bEntrypoint container text) := by
  intro claim
  have valid : validate plainShell (shipped (str "/presets")).toPresets (parseEnvfile (fileText strfryLines)) = .ok () := by
    decide +kernel
  obtain ⟨installs,starts⟩ := site_resolves (by decide +kernel) valid
  have fits := (agree_prepared installs starts (claim [] site site (fileText strfryLines) installs starts)).complete
  rw [settings_file] at fits
  exact absurd (fits (str "SHIELD_F2B_BANTIME") (by decide +kernel)) (by decide +kernel)

end FipsShield.Config
