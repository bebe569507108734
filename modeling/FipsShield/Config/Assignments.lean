import FipsShield.Config.Resolve
import FipsShield.Library.Shell

/-! What a shell assigns when it evaluates the lines that `resolve --shell` prints. -/
namespace FipsShield.Config
open Text Lines Banlist Numeral

/-! ## Commands -/

def isNameUnit (u : UInt16) : Bool := isLetter u || isDigit u

def marks : Shell.Marks UInt16 := ⟨0x27,0x5C,0x20,0x0A,by decide⟩

/-- What means nothing to the shell outside quotes. -/
def isPlain (u : UInt16) : Bool := isNameUnit u || u == 0x3D

/-- The commands of a text that has nothing but plain units and gaps outside quotes. -/
def plainCommands (text : Str) : Option (List (List Str)) :=
  if Shell.clean marks isPlain .bare text then some (Shell.commands marks text) else none

/-- `NAME=value`. -/
def assignedWord (word : Str) : Option (Str × Str) :=
  if word.contains 0x3D && isIdentifier (before 0x3D word) then some (before 0x3D word,after 0x3D word) else none

def exported (sh : Interpreter) : List Str → Option (Str × Str)
  | [name,word] =>
    if name = str "export" then (assignedWord word).filter fun entry => sh.takes entry.1 entry.2 else none
  | _ => none

/-- What `eval` of a text assigns, where it does nothing but `export` of variables that take their values. -/
def exports (sh : Interpreter) (text : Str) : Option (List (Str × Str)) := do
  let commands ← plainCommands text
  commands.mapM (exported sh)

/-- An assignment, which ends the script where the shell refuses it. -/
def assign (sh : Interpreter) (env : Environment) (entry : Str × Str) : Except Str Environment :=
  match sh.refuses entry.1 entry.2 with
  | some message => .error message
  | none => .ok (if sh.takes entry.1 entry.2 then env.insert entry.1 entry.2 else env)

def execute (sh : Interpreter) (env : Environment) : List Str → Except Str Environment
  | [name,word] =>
    if name = str "export" then assign sh env (before 0x3D word,after 0x3D word) else .error (name ++ str ": not found")
  | _ => .error []

/-- The environment after `eval` of what the resolver prints of identifiers: a text with anything
else outside quotes is taken to fail. -/
def evaluate (sh : Interpreter) (env : Environment) (text : Str) : Except Str Environment :=
  match plainCommands text with
  | none => .error []
  | some commands => commands.foldlM (execute sh) env

def assignAll (env : Environment) (layer : List (Str × Str)) : Environment :=
  layer.foldl (fun env entry => env.insert entry.1 entry.2) env

section Map
variable {α β : Type} {f : α → Option β}

theorem mapM_some {g : α → β} {items : List α} (each : ∀ item ∈ items, f item = some (g item)) :
    items.mapM f = some (items.map g) := by
  induction items with
  | nil => rfl
  | cons item rest ih =>
    rw [List.mapM_cons,each item (by simp),ih fun other member => each other (by simp [member])]
    rfl

theorem mapM_mem {items : List α} {results : List β} (done : items.mapM f = some results) :
    ∀ result ∈ results, ∃ item ∈ items, f item = some result := by
  induction items generalizing results with
  | nil =>
    obtain rfl := Option.some.inj done
    simp
  | cons item rest ih =>
    rw [List.mapM_cons] at done
    obtain ⟨first,own,done⟩ := Option.bind_eq_some_iff.mp done
    obtain ⟨later,others,done⟩ := Option.bind_eq_some_iff.mp done
    obtain rfl := Option.some.inj done
    refine List.forall_mem_cons.mpr ⟨⟨item,by simp,own⟩,fun result member => ?_⟩
    obtain ⟨other,within,same⟩ := ih others result member
    exact ⟨other,List.mem_cons_of_mem item within,same⟩

end Map

/-! ## What the resolver prints -/

def exportCommand (entry : Str × Str) : List (List (Shell.Piece UInt16)) :=
  [[.bare (str "export")],[.bare (entry.1 ++ [0x3D]),.quoted entry.2]]

theorem assignment_command (entry : Str × Str) : assignment true entry = Shell.writtenCommand marks (exportCommand entry) := by
  have word : str "export " = str "export" ++ [0x20] := by decide
  have opening : str "='" = [0x3D,0x27] := by decide
  have closing : str "'" = [0x27] := by decide
  have value : 0x27::(quoted entry.2 ++ [0x27]) = Shell.quoted marks entry.2 := rfl
  have gap : marks.blank = 0x20 := rfl
  simp [assignment,word,opening,closing,value,exportCommand,Shell.writtenCommand,Shell.writtenWord,Shell.Piece.written,
    List.intercalate,gap]

/-- No letter and no digit means anything to the shell. -/
theorem identifier_bare {key : Str} (named : isIdentifier key = true) {u : UInt16} (member : u ∈ key) :
    u ≠ marks.quote ∧ u ≠ marks.escape ∧ u ≠ marks.blank ∧ u ≠ marks.stop := by
  have other {v : UInt16} (apart : (isLetter v || isDigit v) = false) : u ≠ v := by
    rintro rfl
    exact identifier_free named apart member
  exact ⟨other (by decide),other (by decide),other (by decide),other (by decide)⟩

theorem exportCommand_proper {entry : Str × Str} (named : isIdentifier entry.1 = true) :
    Shell.Proper marks (exportCommand entry) := by
  have word : (Shell.Piece.bare (str "export")).Proper marks :=
    ⟨by decide,fun u member => identifier_bare (by decide) member⟩
  have key : (Shell.Piece.bare (entry.1 ++ [0x3D])).Proper marks := by
    refine ⟨by simp,fun u member => ?_⟩
    rcases List.mem_append.mp member with inside | sign
    · exact identifier_bare named inside
    · obtain rfl := List.mem_singleton.mp sign
      decide
  have value : (Shell.Piece.quoted entry.2).Proper marks := trivial
  refine ⟨by simp [exportCommand],List.forall_mem_cons.mpr ⟨⟨by simp,?_⟩,List.forall_mem_singleton.mpr ⟨by simp,?_⟩⟩⟩
  · exact List.forall_mem_singleton.mpr word
  · exact List.forall_mem_cons.mpr ⟨key,List.forall_mem_singleton.mpr value⟩

theorem assignments_written (earlier : List (Str × Str)) (final : Str × Str) :
    captured (written 0x0A ((earlier ++ [final]).map (assignment true))) =
      ((earlier.map exportCommand).flatMap fun command => Shell.writtenCommand marks command ++ [marks.stop]) ++
        Shell.writtenCommand marks (exportCommand final) := by
  have last : (assignment true final).getLast? = some 0x27 := by
    have closing : str "'" = [0x27] := by decide
    simp [assignment,closing]
  have stop : str "\n" = [0x0A] := by decide
  have text : written 0x0A ((earlier ++ [final]).map (assignment true)) =
      (written 0x0A (earlier.map (assignment true)) ++ assignment true final) ++ str "\n" := by
    simp [written,stop]
  have ended : ∀ u ∈ (written 0x0A (earlier.map (assignment true)) ++ assignment true final).getLast?, u ≠ 0x0A := by
    rw [List.getLast?_append,last]
    rintro u ⟨⟩
    decide
  rw [text,captured_ended ended,written,List.flatMap_map,List.flatMap_map,assignment_command final]
  simp only [assignment_command]
  rfl

/-- The commands that `resolve --shell` prints: one for each assignment. -/
theorem commands_assignments {layer : List (Str × Str)} (named : ∀ entry ∈ layer, isIdentifier entry.1 = true) :
    Shell.commands marks (captured (written 0x0A (layer.map (assignment true)))) =
      layer.map fun entry => (exportCommand entry).map Shell.wordText := by
  rcases List.eq_nil_or_concat layer with rfl | ⟨earlier,final,rfl⟩
  · rfl
  rw [List.concat_eq_append] at *
  have own := fun entry member => exportCommand_proper (named entry member)
  rw [assignments_written,Shell.commands_written,← List.map_singleton,← List.map_append,List.map_map]
  · rfl
  · intro command member
    obtain ⟨entry,within,rfl⟩ := List.mem_map.mp member
    exact own entry (by simp [within])
  · exact own final (by simp)

theorem assignedWord_entry {entry : Str × Str} (named : isIdentifier entry.1 = true) :
    assignedWord (entry.1 ++ 0x3D::entry.2) = some entry := by
  have free := (identifier_stops named).2.2
  rw [assignedWord,before_stop free,after_stop free,if_pos (by simp [named])]

theorem Interpreter.identifier (sh : Interpreter) {k v : Str} (takes : sh.takes k v = true) : isIdentifier k = true :=
  sh.named k v (sh.taken k v takes)

theorem exported_taken {sh : Interpreter} {command : List Str} {pair : Str × Str} (assigns : exported sh command = some pair) :
    sh.takes pair.1 pair.2 = true := by
  rw [exported.eq_def] at assigns
  split at assigns
  · split_ifs at assigns
    exact (Option.filter_eq_some_iff.mp assigns).2
  · cases assigns

theorem exports_taken {sh : Interpreter} {text : Str} {pairs : List (Str × Str)} (assigns : exports sh text = some pairs) :
    ∀ pair ∈ pairs, sh.takes pair.1 pair.2 = true := by
  obtain ⟨commands,_,each⟩ := Option.bind_eq_some_iff.mp assigns
  intro pair member
  obtain ⟨command,_,own⟩ := mapM_mem each pair member
  exact exported_taken own

theorem identifier_plain {key : Str} (named : isIdentifier key = true) : ∀ u ∈ key, isPlain u = true := by
  rw [isIdentifier,Bool.and_eq_true,List.all_eq_true] at named
  intro u member
  have own := named.2 u member
  rw [isPlain,isNameUnit,own,Bool.true_or]

theorem exportCommand_plain {entry : Str × Str} (named : isIdentifier entry.1 = true) :
    ∀ word ∈ exportCommand entry, ∀ piece ∈ word, piece.Plain isPlain := by
  have name : (Shell.Piece.bare (str "export")).Plain isPlain := identifier_plain (by decide)
  have key : (Shell.Piece.bare (entry.1 ++ [0x3D])).Plain isPlain := by
    intro u member
    rcases List.mem_append.mp member with inside | sign
    · exact identifier_plain named u inside
    · obtain rfl := List.mem_singleton.mp sign
      decide
  have value : (Shell.Piece.quoted entry.2).Plain isPlain := trivial
  refine List.forall_mem_cons.mpr ⟨List.forall_mem_singleton.mpr name,List.forall_mem_singleton.mpr ?_⟩
  exact List.forall_mem_cons.mpr ⟨key,List.forall_mem_singleton.mpr value⟩

section Layer
variable {sh : Interpreter} {layer : List (Str × Str)}

theorem plainCommands_assignments (named : ∀ entry ∈ layer, isIdentifier entry.1 = true) :
    plainCommands (captured (written 0x0A (layer.map (assignment true)))) =
      some (layer.map fun entry => [str "export",entry.1 ++ 0x3D::entry.2]) := by
  have read : Shell.clean marks isPlain .bare (captured (written 0x0A (layer.map (assignment true)))) = true := by
    rcases List.eq_nil_or_concat layer with rfl | ⟨earlier,final,rfl⟩
    · rfl
    rw [List.concat_eq_append] at *
    rw [assignments_written]
    have each {command : List (List (Shell.Piece UInt16))} (member : command ∈ earlier.map exportCommand) :
        Shell.Proper marks command ∧ ∀ word ∈ command, ∀ piece ∈ word, piece.Plain isPlain := by
      obtain ⟨entry,within,rfl⟩ := List.mem_map.mp member
      have own := named entry (by simp [within])
      exact ⟨exportCommand_proper own,exportCommand_plain own⟩
    have last := named final (by simp)
    exact Shell.clean_written (fun command member => (each member).1) (exportCommand_proper last)
      (fun command member => (each member).2) (exportCommand_plain last)
  have words (entry : Str × Str) : (exportCommand entry).map Shell.wordText = [str "export",entry.1 ++ 0x3D::entry.2] := by
    simp [exportCommand,Shell.wordText,Shell.Piece.text]
  rw [plainCommands,if_pos read,commands_assignments named]
  simp only [words]

/-- Of keys that the shell takes every value is assigned, and nothing else is done. -/
theorem exports_assignments (takes : ∀ entry ∈ layer, sh.takes entry.1 entry.2 = true) :
    exports sh (captured (written 0x0A (layer.map (assignment true)))) = some layer := by
  have named : ∀ entry ∈ layer, isIdentifier entry.1 = true := fun entry member => sh.identifier (takes entry member)
  rw [exports,plainCommands_assignments named]
  change List.mapM _ _ = _
  rw [List.mapM_map,mapM_some (g := id),List.map_id]
  intro entry member
  rw [Function.comp_apply,exported,if_pos rfl,assignedWord_entry (named entry member),Option.filter_some,
    if_pos (takes entry member),id]

theorem assign_shield {entry : Str × Str} (named : isIdentifier entry.1 = true) (shield : shieldKey entry.1 = true)
    (env : Environment) : assign sh env entry = .ok (env.insert entry.1 entry.2) := by
  have takes := sh.shield entry.1 entry.2 named shield
  rw [assign,sh.taken _ _ takes,takes]
  rfl

theorem evaluate_shield (shield : ∀ entry ∈ layer, isIdentifier entry.1 = true ∧ shieldKey entry.1 = true)
    (env : Environment) :
    evaluate sh env (captured (written 0x0A (layer.map (assignment true)))) = .ok (assignAll env layer) := by
  rw [evaluate,plainCommands_assignments fun entry member => (shield entry member).1]
  change List.foldlM _ _ _ = _
  rw [List.foldlM_map]
  induction layer generalizing env with
  | nil => rfl
  | cons entry rest ih =>
    obtain ⟨named,own⟩ := shield entry (by simp)
    have free := (identifier_stops named).2.2
    rw [List.foldlM_cons,execute,if_pos rfl,before_stop free,after_stop free,assign_shield named own]
    exact ih (fun other member => shield other (by simp [member])) _

end Layer

end FipsShield.Config
