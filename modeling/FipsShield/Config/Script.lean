import FipsShield.Banlist.Script
import Mathlib.Data.List.AList
import Mathlib.Data.List.Sort

/-! The configuration resolver (`bin/shield-config`): the two layers it reads, the level of
each scope, and the assignments that `resolve` prints. -/
namespace FipsShield.Config
open Text Lines Banlist Numeral

abbrev Environment := AList fun _ : Str => Str

/-! ## The shell -/

def isLetter (u : UInt16) : Bool := (0x41 ≤ u && u ≤ 0x5A) || (0x61 ≤ u && u ≤ 0x7A) || u == 0x5F

def isIdentifier (key : Str) : Bool := key.head?.any isLetter && key.all fun u => isLetter u || isDigit u

def shieldKey (k : Str) : Bool := (str "SHIELD_").isPrefixOf k

/-- What every `echo` prints as it is: no escape, and nothing like an option. -/
structure Spoken (s : Str) : Prop where
  unescaped : 0x5C ∉ s
  undashed : s.head? ≠ some 0x2D

instance (s : Str) : Decidable (Spoken s) :=
  decidable_of_iff (0x5C ∉ s ∧ s.head? ≠ some 0x2D) ⟨fun both => ⟨both.1,both.2⟩,fun spoken => ⟨spoken.1,spoken.2⟩⟩

/-- A shell in its working directory: the files there that match a word, what its `echo` prints of
an operand, what it says of an assignment that it refuses, and whether the variable has the value
after one. Of an operand with a backslash, or that may be an option, shells print different things,
and each has variables that cannot be set, or that keep a value of their own. -/
structure Interpreter where
  matching : Str → List Str
  echo : Str → Str
  refuses : Str → Str → Option Str
  takes : Str → Str → Bool
  spoken : ∀ s, Spoken s → echo s = s ++ str "\n"
  named : ∀ k v, refuses k v = none → isIdentifier k = true
  taken : ∀ k v, takes k v = true → refuses k v = none
  shield : ∀ k v, isIdentifier k = true → shieldKey k = true → takes k v = true

/-- A shell in a directory without files, whose `echo` reads no escape. -/
def plainShell : Interpreter where
  matching _ := []
  echo s := if s = str "-n" then [] else s ++ str "\n"
  refuses k v :=
    if !isIdentifier k then some (str "export: " ++ k ++ str ": bad variable name")
    else if k = str "OPTIND" ∧ v.any (fun u => !isDigit u) then some (str "Illegal number: " ++ v)
    else none
  takes k v := isIdentifier k && !(k == str "OPTIND" && v.any fun u => !isDigit u)
  spoken s spoken := by
    have apart : s ≠ str "-n" := by
      rintro rfl
      exact absurd spoken.undashed (by decide)
    exact if_neg apart
  named k v taken := by
    by_contra other
    rw [Bool.not_eq_true] at other
    simp [other] at taken
  taken k v takes := by
    rw [Bool.and_eq_true,Bool.not_eq_true',Bool.and_eq_false_imp,beq_iff_eq] at takes
    rw [takes.1,if_neg (by decide),if_neg]
    rintro ⟨same,other⟩
    rw [takes.2 same] at other
    exact Bool.false_ne_true other
  shield k v named own := by
    have apart : k ≠ str "OPTIND" := by
      rintro rfl
      exact absurd own (by decide)
    simp [named,apart]

/-- What makes a pattern of a word. -/
def isPattern (u : UInt16) : Bool := u == 0x2A || u == 0x3F || u == 0x5B

/-- An unquoted word: the files that match it, or else the word. -/
def expand (sh : Interpreter) (word : Str) : List Str :=
  if word.any isPattern && !(sh.matching word).isEmpty then sh.matching word else [word]

/-! ## Layers -/

/-- The key and the value of a line that `parse_envfile` prints. -/
def setting (line : Str) : Option (Str × Str) :=
  if line = [] ∨ line.head? = some 0x23 then none
  else if !line.contains 0x3D then none
  else if (before 0x3D line).head?.any isLetter then some (before 0x3D line,after 0x3D line)
  else none

def tabbed (entry : Str × Str) : Str := entry.1 ++ 0x09::entry.2

def settings (text : Str) : List (Str × Str) := (records newline text).filterMap setting

def parseEnvfile (text : Str) : Str := written 0x0A ((settings text).map tabbed)

/-- What `$( )` takes of the value awk prints of the last line with the key. -/
def customGet (k custom : Str) : Option Str :=
  let found := (records newline custom).filter fun line => equal (before 0x09 line) k
  found.getLast?.map fun line => captured (line.drop (k.length + 1) ++ str "\n")

/-- The `case` pattern `*part*`. -/
def within (part text : Str) : Bool := text.tails.any part.isPrefixOf

/-! ## Presets -/

/-- What there is in `PRESET_DIR`: its directories, the text of `<scope>/<level>.env`, and
those of the files `*/default.env`. -/
structure Presets where
  path : Str
  directory : Str → Bool
  file : Str → Str → Option Str
  defaults : List Str

def sorted (lines : List Str) : List Str := lines.insertionSort fun a b => a ≤ b

def allPresetKeys (presets : Presets) : Str :=
  written 0x0A (sorted (presets.defaults.flatMap fun text =>
    (records newline (parseEnvfile text)).map (before 0x09))).dedup

def listed (line lines : Str) : Bool :=
  within (0x0A::line ++ [0x0A]) (0x0A::captured lines ++ [0x0A])

def die (message : Str) : Str := str "shield-config: " ++ message ++ str "\n"

/-- `tr '[:lower:]' '[:upper:]'`. -/
def upper (s : Str) : Str := s.map fun u => if 0x61 ≤ u && u ≤ 0x7A then u - 0x20 else u

def levels : Str := str "strict default loose"

def levelFor (sh : Interpreter) (scope custom : Str) : Except Str Str :=
  let own := if scope = str "core" then [] else
    (customGet (str "SHIELD_" ++ captured (upper (sh.echo scope)) ++ str "_PRESET") custom).getD []
  let general := if own = [] then (customGet (str "SHIELD_PRESET") custom).getD [] else own
  let level := if general = [] then str "default" else general
  if within (0x20::level ++ [0x20]) (0x20::levels ++ [0x20]) then .ok level
  else .error (die (str "unknown preset level '" ++ level ++ str "' (have:" ++ levels ++ str ")"))

/-- `SHIELD_PROFILES`, with its default. -/
def profiles (custom : Str) : Str :=
  let given := (customGet (str "SHIELD_PROFILES") custom).getD (str "strfry")
  if given = [] then str "strfry" else given

/-- `tr ',' ' '`. -/
def spaced (s : Str) : Str := s.map fun u => if u = 0x2C then 0x20 else u

/-- `tr -s ' ' '\n'`. -/
def squeezed : Str → Str
  | [] => []
  | u::rest =>
    let v := if u = 0x20 then 0x0A else u
    match squeezed rest with
    | 0x0A::later => if v = 0x0A then 0x0A::later else v::0x0A::later
    | later => v::later

/-- Core, then the enabled profiles up to the first that is no directory. -/
def scopes (sh : Interpreter) (presets : Presets) (custom : Str) : List Str :=
  let listed := (records newline (squeezed (spaced (sh.echo (profiles custom))))).filter (· ≠ [])
  records newline (sh.echo (str "core") ++ (listed.takeWhile presets.directory).flatMap sh.echo)

/-! ## Resolving -/

def tagged (k v source : Str) : Str := k ++ 0x09::v ++ 0x09::source

def resolveScope (sh : Interpreter) (presets : Presets) (custom scope : Str) : Except Str Str := do
  let level ← levelFor sh scope custom
  match presets.file scope level with
  | none => .error (die (str "missing preset " ++ presets.path ++ str "/" ++ scope ++ str "/" ++ level ++ str ".env"))
  | some text =>
    return written 0x0A ((records newline (parseEnvfile text)).map fun line =>
      let k := before 0x09 line
      match customGet k custom with
      | some v => tagged k v (str "custom")
      | none => tagged k (after 0x09 line) (str "preset:" ++ scope ++ str "/" ++ level))

def resolveExtras (presets : Presets) (custom : Str) : Str :=
  let known := allPresetKeys presets
  written 0x0A ((((records newline custom).map (before 0x09)).filter fun k => !listed k known).map fun k =>
    tagged k ((customGet k custom).getD []) (str "custom"))

/-- A scope that fails ends the subshell that the scopes and the extras after them are printed in,
not the script. -/
def resolveScopes (sh : Interpreter) (presets : Presets) (custom extras : Str) : List Str → Str
  | [] => extras
  | scope::rest =>
    match resolveScope sh presets custom scope with
    | .ok lines => lines ++ resolveScopes sh presets custom extras rest
    | .error _ => []

def resolveAll (sh : Interpreter) (presets : Presets) (custom : Str) : Str :=
  resolveScopes sh presets custom (resolveExtras presets custom) (scopes sh presets custom)

def isBlank (u : UInt16) : Bool := u == 0x20 || u == 0x09 || u == 0x0A

/-- The words that the shell makes of the list of profiles. -/
def listWords (sh : Interpreter) (list : Str) : List Str :=
  (fields isBlank (captured (spaced (sh.echo list)))).flatMap (expand sh)

def checked (sh : Interpreter) (presets : Presets) (custom scope : Str) : Except Str Unit := do
  if !presets.directory scope then
    .error (die (str "no preset directory for '" ++ scope ++ str "' (" ++ presets.path ++ str "/" ++ scope ++ str ")"))
  else
    let level ← levelFor sh scope custom
    match presets.file scope level with
    | none => .error (die (str "missing preset " ++ presets.path ++ str "/" ++ scope ++ str "/" ++ level ++ str ".env"))
    | some _ => return ()

def validate (sh : Interpreter) (presets : Presets) (custom : Str) : Except Str Unit :=
  (str "core"::listWords sh (profiles custom)).forM (checked sh presets custom)

/-- `sed "s/'/'\\\\''/g"`. -/
def quoted (v : Str) : Str := v.flatMap fun u => if u = 0x27 then str "'\\''" else [u]

/-- A line of `resolve`, as it is or to be evaluated by a shell. -/
def assigned (shell : Bool) (line : Str) : Str :=
  let k := before 0x09 line
  let v := beforeLast 0x09 (after 0x09 line)
  if shell then str "export " ++ k ++ str "='" ++ quoted v ++ str "'" else k ++ 0x3D::v

def resolve (sh : Interpreter) (presets : Presets) (shell : Bool) (custom : Str) : Except Str Str := do
  validate sh presets custom
  return written 0x0A ((records newline (resolveAll sh presets custom)).map (assigned shell))

/-! ## The two modes -/

/-- Where presets may be, and what is there. -/
structure Install where
  candidates : List Str
  tree : Str → Option Presets

def presetDir : Str := str "SHIELD_PRESET_DIR"

/-- The presets, and the environment: an empty `SHIELD_PRESET_DIR` in it is replaced. -/
def choose (install : Install) (env : Environment) : Except Str (Environment × Presets) :=
  let given := (env.lookup presetDir).getD []
  let missing := die (str "no presets found (looked in " ++ (str ", ").intercalate install.candidates ++
    str "). Set SHIELD_PRESET_DIR.")
  if given ≠ [] then
    match install.tree given with
    | some presets => .ok (env,presets)
    | none => .error missing
  else
    match install.candidates.find? fun dir => (install.tree dir).isSome with
    | none => .error missing
    | some dir =>
      match install.tree dir with
      | some presets => .ok (if presetDir ∈ env then env.insert presetDir dir else env,presets)
      | none => .error missing

/-- The keys of the presets that are set, then every other `SHIELD_` variable. -/
def collectFromEnv (presets : Presets) (env : Environment) : Str :=
  let known := allPresetKeys presets
  let others := sorted (env.keys.filter shieldKey)
  written 0x0A ((records newline known).filterMap fun k => (env.lookup k).map fun v => tabbed (k,v)) ++
    written 0x0A ((others.filter fun k => !listed k known).map fun k => tabbed (k,(env.lookup k).getD []))

def resolveFile (sh : Interpreter) (install : Install) (env : Environment) (shell : Bool) (text : Str) : Except Str Str := do
  let (_,presets) ← choose install env
  resolve sh presets shell (parseEnvfile text)

def resolveEnv (sh : Interpreter) (install : Install) (env : Environment) (shell : Bool) : Except Str Str := do
  let (env,presets) ← choose install env
  resolve sh presets shell (collectFromEnv presets env)

end FipsShield.Config
