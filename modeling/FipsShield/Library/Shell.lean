import Mathlib.Data.List.Basic

/-! Commands of words, read by a shell: bare units, single quotes, and one unit after an
escape. Quoted text is read back as it was, whatever its units. -/
namespace FipsShield.Shell
universe u
variable {α : Type u} [DecidableEq α]

/-- The units that mean something outside quotes. -/
structure Marks (α : Type u) where
  quote : α
  escape : α
  blank : α
  stop : α
  apart : [quote,escape,blank,stop].Nodup

inductive Mode where
  | bare
  | single
  | escaped
  deriving DecidableEq

structure Reader (α : Type u) where
  commands : List (List (List α))
  words : List (List α)
  word : Option (List α)
  mode : Mode

namespace Reader

def initial : Reader α := ⟨[],[],none,.bare⟩

def extend (r : Reader α) (s : List α) : Reader α := {r with word := some (r.word.getD [] ++ s)}

def endWord (r : Reader α) : Reader α := {r with words := r.words ++ r.word.toList,word := none}

def endCommand (r : Reader α) : Reader α :=
  match r.words ++ r.word.toList with
  | [] => {r with words := [],word := none}
  | words => {r with commands := r.commands ++ [words],words := [],word := none}

def read (m : Marks α) (r : Reader α) (u : α) : Reader α :=
  match r.mode with
  | .bare =>
    if u = m.quote then {r.extend [] with mode := .single}
    else if u = m.escape then {r with mode := .escaped}
    else if u = m.blank then r.endWord
    else if u = m.stop then r.endCommand
    else r.extend [u]
  | .single => if u = m.quote then {r with mode := .bare} else r.extend [u]
  | .escaped => {r.extend [u] with mode := .bare}

end Reader

/-- The commands of a text, each the list of its words. -/
def commands (m : Marks α) (text : List α) : List (List (List α)) :=
  (text.foldl (Reader.read m) .initial).endCommand.commands

/-- Text between single quotes, each quote in it outside them and escaped. -/
def quoted (m : Marks α) (s : List α) : List α :=
  m.quote :: (s.flatMap fun u => if u = m.quote then [m.quote,m.escape,m.quote,m.quote] else [u]) ++ [m.quote]

inductive Piece (α : Type u) where
  | bare (s : List α)
  | quoted (s : List α)

namespace Piece

def written (m : Marks α) : Piece α → List α
  | .bare s => s
  | .quoted s => Shell.quoted m s

def text : Piece α → List α
  | .bare s | .quoted s => s

/-- Some units, none of which means anything. -/
def Proper (m : Marks α) : Piece α → Prop
  | .bare s => s ≠ [] ∧ ∀ u ∈ s, u ≠ m.quote ∧ u ≠ m.escape ∧ u ≠ m.blank ∧ u ≠ m.stop
  | .quoted _ => True

end Piece

/-- A word is a list of pieces, and a command one of words. -/
def wordText (word : List (Piece α)) : List α := word.flatMap Piece.text

def writtenWord (m : Marks α) (word : List (Piece α)) : List α := word.flatMap (Piece.written m)

def writtenCommand (m : Marks α) (command : List (List (Piece α))) : List α :=
  [m.blank].intercalate (command.map (writtenWord m))

def Proper (m : Marks α) (command : List (List (Piece α))) : Prop :=
  command ≠ [] ∧ ∀ word ∈ command, word ≠ [] ∧ ∀ piece ∈ word, piece.Proper m

variable {m : Marks α}

section Extend
omit [DecidableEq α]
variable (r : Reader α)

@[simp] theorem extend_extend (s t : List α) : (r.extend s).extend t = r.extend (s ++ t) := by
  simp [Reader.extend]

end Extend

theorem read_bare {s : List α} (proper : (Piece.bare s).Proper m) {r : Reader α} (mode : r.mode = .bare) :
    s.foldl (Reader.read m) r = r.extend s := by
  obtain ⟨filled,bare⟩ := proper
  induction s generalizing r with
  | nil => exact absurd rfl filled
  | cons u rest ih =>
    obtain ⟨quote,escape,blank,stop⟩ := bare u (by simp)
    have one : Reader.read m r u = r.extend [u] := by simp [Reader.read,mode,quote,escape,blank,stop]
    rw [List.foldl_cons,one]
    cases rest with
    | nil => rfl
    | cons v later =>
      have next : (r.extend [u]).mode = .bare := mode
      rw [ih next (by simp) fun w member => bare w (by simp [member]),extend_extend]
      rfl

theorem read_single (s : List α) {r : Reader α} (mode : r.mode = .single) :
    (s.flatMap fun u => if u = m.quote then [m.quote,m.escape,m.quote,m.quote] else [u]).foldl (Reader.read m)
      (r.extend []) = r.extend s := by
  obtain ⟨apart,_⟩ := List.nodup_cons.mp m.apart
  have other : m.escape ≠ m.quote := fun same => apart (by simp [same])
  induction s generalizing r with
  | nil => rfl
  | cons u rest ih =>
    rw [List.flatMap_cons,List.foldl_append]
    have one : (if u = m.quote then [m.quote,m.escape,m.quote,m.quote] else [u]).foldl (Reader.read m) (r.extend []) =
        (r.extend [u]).extend [] := by
      split_ifs with same
      · subst same
        simp [Reader.read,Reader.extend,mode,other]
      · simp [Reader.read,Reader.extend,mode,same]
    have next : (r.extend [u]).mode = .single := mode
    rw [one,ih next,extend_extend]
    rfl

theorem read_quoted (s : List α) {r : Reader α} (mode : r.mode = .bare) :
    (quoted m s).foldl (Reader.read m) r = r.extend s := by
  have opens : Reader.read m r m.quote = {r with mode := .single}.extend [] := by
    simp [Reader.read,Reader.extend,mode]
  have inner := @read_single α _ m s {r with mode := .single} rfl
  rw [quoted,List.cons_append,List.foldl_cons,List.foldl_append,opens,inner]
  simp [Reader.read,Reader.extend,mode]

theorem read_word {word : List (Piece α)} (filled : word ≠ []) (proper : ∀ piece ∈ word, piece.Proper m) {r : Reader α}
    (mode : r.mode = .bare) : (writtenWord m word).foldl (Reader.read m) r = r.extend (wordText word) := by
  have one {piece : Piece α} (own : piece.Proper m) {r : Reader α} (mode : r.mode = .bare) :
      (piece.written m).foldl (Reader.read m) r = r.extend piece.text := by
    cases piece with
    | bare s => exact read_bare own mode
    | quoted s => exact read_quoted s mode
  induction word generalizing r with
  | nil => exact absurd rfl filled
  | cons piece rest ih =>
    rw [writtenWord,List.flatMap_cons,List.foldl_append,one (proper piece (by simp)) mode,← writtenWord]
    cases rest with
    | nil => simp [writtenWord,wordText]
    | cons next later =>
      have after : (r.extend piece.text).mode = .bare := mode
      rw [ih (by simp) (fun other member => proper other (by simp [member])) after,extend_extend]
      rfl

theorem read_blank {r : Reader α} (mode : r.mode = .bare) : Reader.read m r m.blank = r.endWord := by
  have apart := m.apart
  simp only [List.nodup_cons,List.mem_cons,List.not_mem_nil,or_false,not_or] at apart
  simp [Reader.read,mode,Ne.symm apart.1.2.1,Ne.symm apart.2.1.1]

theorem read_stop {r : Reader α} (mode : r.mode = .bare) : Reader.read m r m.stop = r.endCommand := by
  have apart := m.apart
  simp only [List.nodup_cons,List.mem_cons,List.not_mem_nil,or_false,not_or] at apart
  simp [Reader.read,mode,Ne.symm apart.1.2.2,Ne.symm apart.2.1.2,Ne.symm apart.2.2.1]

theorem read_words {command : List (List (Piece α))} (proper : Proper m command) {r : Reader α}
    (ready : r.word = none ∧ r.mode = .bare) :
    ∃ words last, (writtenCommand m command).foldl (Reader.read m) r =
      {r with words := r.words ++ words,word := some last} ∧ words ++ [last] = command.map wordText := by
  obtain ⟨filled,words⟩ := proper
  obtain ⟨none,mode⟩ := ready
  induction command generalizing r with
  | nil => exact absurd rfl filled
  | cons word rest ih =>
    obtain ⟨some,pieces⟩ := words word (by simp)
    cases rest with
    | nil =>
      refine ⟨[],wordText word,?_,rfl⟩
      have one : writtenCommand m [word] = writtenWord m word := by simp [writtenCommand]
      rw [one,read_word some pieces mode]
      simp [Reader.extend,none]
    | cons next later =>
      have split : writtenCommand m (word::next::later) =
          writtenWord m word ++ m.blank::writtenCommand m (next::later) := by
        simp [writtenCommand,List.intercalate]
      have after : Reader.read m (r.extend (wordText word)) m.blank =
          {r with words := r.words ++ [wordText word],word := Option.none} := by
        have bare : (r.extend (wordText word)).mode = .bare := mode
        rw [read_blank bare]
        simp [Reader.endWord,Reader.extend,none]
      obtain ⟨others,last,read,same⟩ := @ih {r with words := r.words ++ [wordText word],word := Option.none} (by simp)
        (fun other member => words other (by simp [member])) rfl mode
      refine ⟨wordText word::others,last,?_,by rw [List.cons_append,same]; rfl⟩
      rw [split,List.foldl_append,List.foldl_cons,read_word some pieces mode,after,read]
      simp

theorem read_command {command : List (List (Piece α))} (proper : Proper m command) {r : Reader α}
    (ready : r.words = [] ∧ r.word = none ∧ r.mode = .bare) :
    ((writtenCommand m command).foldl (Reader.read m) r).endCommand =
      {r with commands := r.commands ++ [command.map wordText]} ∧
    ((writtenCommand m command).foldl (Reader.read m) r).mode = .bare := by
  obtain ⟨empty,none,mode⟩ := ready
  obtain ⟨words,last,read,same⟩ := read_words proper ⟨none,mode⟩
  rw [read]
  refine ⟨?_,mode⟩
  have filled : words ++ [last] ≠ [] := by simp
  obtain ⟨first,others,split⟩ := List.exists_cons_of_ne_nil filled
  rw [← same]
  simp [Reader.endCommand,empty,none,split]

/-- The commands that were written, the last of them without its stop, are read. -/
theorem commands_written {earlier : List (List (List (Piece α)))} {command : List (List (Piece α))}
    (proper : ∀ command ∈ earlier, Proper m command) (own : Proper m command) :
    commands m ((earlier.flatMap fun command => writtenCommand m command ++ [m.stop]) ++ writtenCommand m command) =
      (earlier ++ [command]).map fun command => command.map wordText := by
  have lines (r : Reader α) (ready : r.words = [] ∧ r.word = none ∧ r.mode = .bare) :
      (earlier.flatMap fun command => writtenCommand m command ++ [m.stop]).foldl (Reader.read m) r =
        {r with commands := r.commands ++ earlier.map fun command => command.map wordText} := by
    induction earlier generalizing r with
    | nil => simp
    | cons first rest ih =>
      obtain ⟨ended,mode⟩ := read_command (proper first (by simp)) ready
      have later := ih (fun other member => proper other (by simp [member]))
        {r with commands := r.commands ++ [first.map wordText]} ready
      rw [List.flatMap_cons,List.foldl_append,List.foldl_append,List.foldl_cons,List.foldl_nil,read_stop mode,ended,later]
      simp
  rw [commands,List.foldl_append,lines .initial ⟨rfl,rfl,rfl⟩,(read_command own ⟨rfl,rfl,rfl⟩).1]
  simp [Reader.initial]

/-! ## What is read bare -/

/-- Whether only plain units are read bare, none that ends a command is escaped, and no quote
is left open. -/
def clean (m : Marks α) (plain : α → Bool) : Mode → List α → Bool
  | mode,[] => mode = .bare
  | .bare,u::rest =>
    if u = m.quote then clean m plain .single rest
    else if u = m.escape then clean m plain .escaped rest
    else (u = m.blank || u = m.stop || plain u) && clean m plain .bare rest
  | .single,u::rest => clean m plain (if u = m.quote then .bare else .single) rest
  | .escaped,u::rest => u ≠ m.stop && clean m plain .bare rest

/-- What is bare in a piece is plain. -/
def Piece.Plain (plain : α → Bool) : Piece α → Prop
  | .bare s => ∀ u ∈ s, plain u = true
  | .quoted _ => True

variable {plain : α → Bool}

theorem clean_bare {s : List α} (proper : (Piece.bare s).Proper m) (own : (Piece.bare s).Plain plain) (rest : List α) :
    clean m plain .bare (s ++ rest) = clean m plain .bare rest := by
  have bare := proper.2
  clear proper
  induction s with
  | nil => rfl
  | cons u later ih =>
    obtain ⟨quote,escape,_,_⟩ := bare u (by simp)
    have unit : plain u = true := own u (by simp)
    have next := ih (fun v member => own v (by simp [member])) fun v member => bare v (by simp [member])
    simp [clean,quote,escape,unit,next]

theorem clean_single (s rest : List α) :
    clean m plain .single ((s.flatMap fun u => if u = m.quote then [m.quote,m.escape,m.quote,m.quote] else [u]) ++
      m.quote::rest) = clean m plain .bare rest := by
  have apart := m.apart
  simp only [List.nodup_cons,List.mem_cons,List.not_mem_nil,or_false,not_or] at apart
  have other : m.escape ≠ m.quote := Ne.symm apart.1.1
  have ended : m.quote ≠ m.stop := apart.1.2.2
  induction s with
  | nil => simp [clean]
  | cons u later ih =>
    rw [List.flatMap_cons,List.append_assoc]
    by_cases same : u = m.quote
    · simp [same,clean,other,ended,ih]
    · simp [same,clean,ih]

theorem clean_piece {piece : Piece α} (proper : piece.Proper m) (own : piece.Plain plain) (rest : List α) :
    clean m plain .bare (piece.written m ++ rest) = clean m plain .bare rest := by
  cases piece with
  | bare s => exact clean_bare proper own rest
  | quoted s =>
    have inner := @clean_single α _ m plain s rest
    simpa [Piece.written,quoted,clean] using inner

theorem clean_word {word : List (Piece α)} (proper : ∀ piece ∈ word, piece.Proper m) (own : ∀ piece ∈ word, piece.Plain plain)
    (rest : List α) : clean m plain .bare (writtenWord m word ++ rest) = clean m plain .bare rest := by
  induction word with
  | nil => rfl
  | cons piece later ih =>
    rw [writtenWord,List.flatMap_cons,List.append_assoc,clean_piece (proper piece (by simp)) (own piece (by simp)),← writtenWord]
    exact ih (fun other member => proper other (by simp [member])) fun other member => own other (by simp [member])

theorem clean_gap {u : α} (gap : u = m.blank ∨ u = m.stop) (rest : List α) :
    clean m plain .bare (u::rest) = clean m plain .bare rest := by
  have apart := m.apart
  simp only [List.nodup_cons,List.mem_cons,List.not_mem_nil,or_false,not_or] at apart
  rcases gap with rfl | rfl
  · simp [clean,Ne.symm apart.1.2.1,Ne.symm apart.2.1.1]
  · simp [clean,Ne.symm apart.1.2.2,Ne.symm apart.2.1.2]

theorem clean_command {command : List (List (Piece α))} (proper : Proper m command)
    (own : ∀ word ∈ command, ∀ piece ∈ word, piece.Plain plain) (rest : List α) :
    clean m plain .bare (writtenCommand m command ++ rest) = clean m plain .bare rest := by
  obtain ⟨filled,words⟩ := proper
  induction command with
  | nil => exact absurd rfl filled
  | cons word later ih =>
    have first := fun rest => clean_word (words word (by simp)).2 (own word (by simp)) rest
    cases later with
    | nil => simpa [writtenCommand] using first rest
    | cons next others =>
      have split : writtenCommand m (word::next::others) =
          writtenWord m word ++ m.blank::writtenCommand m (next::others) := by
        simp [writtenCommand,List.intercalate]
      rw [split,List.append_assoc,first,List.cons_append,clean_gap (Or.inl rfl)]
      exact ih (fun other member => own other (by simp [member])) (by simp) fun other member => words other (by simp [member])

/-- Of commands that were written nothing is read bare but what was meant to be. -/
theorem clean_written {earlier : List (List (List (Piece α)))} {command : List (List (Piece α))}
    (proper : ∀ command ∈ earlier, Proper m command) (last : Proper m command)
    (own : ∀ command ∈ earlier, ∀ word ∈ command, ∀ piece ∈ word, piece.Plain plain)
    (final : ∀ word ∈ command, ∀ piece ∈ word, piece.Plain plain) :
    clean m plain .bare ((earlier.flatMap fun command => writtenCommand m command ++ [m.stop]) ++ writtenCommand m command) =
      true := by
  induction earlier with
  | nil =>
    have ended := clean_command last final []
    rw [List.append_nil] at ended
    exact ended.trans rfl
  | cons first rest ih =>
    rw [List.flatMap_cons,List.append_assoc,List.append_assoc,clean_command (proper first (by simp)) (own first (by simp)),
      List.singleton_append,clean_gap (Or.inr rfl)]
    exact ih (fun other member => proper other (by simp [member])) fun other member => own other (by simp [member])

end FipsShield.Shell
