import Mathlib.Data.List.Induction

/-! Configuration files of directives: words between blanks, some of them quoted, up to a stop or
to a block. A text with variables in it has the directives that it has for any values of them,
where each value fits the place it is put in. -/
namespace FipsShield.Directives
universe u v
variable {α : Type u} {κ : Type v}

/-- What a unit means to the reader. -/
inductive Kind where
  | plain | blank | newline | stop | opens | closes | paren | comment | escape | single | double | dollar
  deriving DecidableEq

/-- What the units mean, and what each stands for after an escape. -/
structure Alphabet (α : Type u) where
  kind : α → Kind
  short : α → List α

structure Word (α : Type u) where
  quoted : Bool
  text : List α
  deriving DecidableEq

inductive Item (α : Type u) where
  | simple (words : List (Word α))
  | block (words : List (Word α))
  | close
  deriving DecidableEq

/-! ## Reading -/

/-- Between words, in one, after a quoted one, or in a comment. -/
inductive Mode where
  | gap | bare | single | double | ended | comment
  deriving DecidableEq

structure Reader (α : Type u) where
  items : List (Item α)
  words : List (Word α)
  word : List α
  mode : Mode
  escaped : Bool
  /-- Whether the last unit was a dollar sign, after which a brace opens no block. -/
  dollar : Bool

namespace Reader
variable (a : Alphabet α) (r : Reader α)

def initial : Reader α := ⟨[],[],[],.gap,false,false⟩

def push (s : List α) : Reader α := {r with word := r.word ++ s}

def endWord (quoted : Bool) : Reader α := {r with words := r.words ++ [⟨quoted,r.word⟩],word := [],mode := .gap}

def endItem (item : List (Word α) → Item α) : Reader α := {r with items := r.items ++ [item r.words],words := [],mode := .gap}

def readGap (u : α) : Option (Reader α) :=
  match a.kind u with
  | .blank | .newline => some r
  | .stop => if r.words.isEmpty then none else some (r.endItem .simple)
  | .opens => if r.words.isEmpty then none else some (r.endItem .block)
  | .closes => if r.words.isEmpty then some {r with items := r.items ++ [.close]} else none
  | .comment => some {r with mode := .comment}
  | .escape => some {r with mode := .bare,escaped := true}
  | .single => some {r with mode := .single}
  | .double => some {r with mode := .double}
  | .dollar => some {r.push [u] with mode := .bare,dollar := true}
  | .plain | .paren => some {r.push [u] with mode := .bare}

def readWord (u : α) : Option (Reader α) :=
  if a.kind u = .opens ∧ r.dollar then some (r.push [u])
  else
    let r := {r with dollar := false}
    match a.kind u, r.mode with
    | .escape, _ => some {r with escaped := true}
    | .dollar, _ => some {r.push [u] with dollar := true}
    | .single, .single | .double, .double => some {r.endWord true with mode := .ended}
    | .blank, .bare | .newline, .bare => some (r.endWord false)
    | .stop, .bare => some ((r.endWord false).endItem .simple)
    | .opens, .bare => some ((r.endWord false).endItem .block)
    | _, _ => some (r.push [u])

def readEnded (u : α) : Option (Reader α) :=
  match a.kind u with
  | .blank | .newline => some {r with mode := .gap}
  | .stop => some (r.endItem .simple)
  | .opens => some (r.endItem .block)
  | .paren => some {r.push [u] with mode := .bare}
  | _ => none

def read (u : α) : Option (Reader α) :=
  if r.escaped then some {r.push (a.short u) with escaped := false}
  else
    match r.mode with
    | .gap => r.readGap a u
    | .ended => r.readEnded a u
    | .comment => some (if a.kind u = .newline then {r with mode := .gap} else r)
    | .bare | .single | .double => r.readWord a u

/-- What was read, unless the text ends within a directive. -/
def finish : Option (List (Item α)) :=
  if r.words.isEmpty ∧ (r.mode = .gap ∨ r.mode = .comment) then some r.items else none

end Reader

def items (a : Alphabet α) (text : List α) : Option (List (Item α)) :=
  (text.foldlM (Reader.read a) .initial).bind Reader.finish

/-! ## Texts with variables -/

/-- The words of a bare text up to its last blank, and what comes after that. -/
def parts (a : Alphabet α) (s : List α) : List (List α) × List α :=
  s.foldl (fun done u =>
    if a.kind u = .blank then (if done.2.isEmpty then done.1 else done.1 ++ [done.2],[]) else (done.1,done.2 ++ [u])) ([],[])

def spread (a : Alphabet α) (s : List α) : List (List α) :=
  (parts a s).1 ++ if (parts a s).2.isEmpty then [] else [(parts a s).2]

section Fill
variable (a : Alphabet α) (value : κ → List α)

/-- A variable means nothing by itself. -/
def Alphabet.withVariables (a : Alphabet α) : Alphabet (α ⊕ κ) where
  kind := Sum.elim a.kind fun _ => .plain
  short := Sum.elim (fun u => (a.short u).map .inl) fun k => [.inr k]

def fill (s : List (α ⊕ κ)) : List α := s.flatMap (Sum.elim (fun u => [u]) value)

/-- A word with the values in it, or the words that they make of it. -/
def Word.fill (word : Word (α ⊕ κ)) : List (Word α) :=
  if word.quoted then [⟨true,Directives.fill value word.text⟩]
  else (spread a (Directives.fill value word.text)).map (Word.mk false)

def Item.fill : Item (α ⊕ κ) → Item α
  | .simple words => .simple (words.flatMap (Word.fill a value))
  | .block words => .block (words.flatMap (Word.fill a value))
  | .close => .close

end Fill

section Scan
variable (a : Alphabet α) (r : Reader (α ⊕ κ))

/-- Whether the first word of the directive that is read is there for any values. -/
def Reader.headed : Bool :=
  match r.words ++ [⟨false,r.word⟩] with
  | word::_ => word.quoted || word.text.head?.any fun u => u.elim (fun u => a.kind u != .blank) fun _ => false
  | [] => false

/-- Whether a unit is read in the same way after a variable of any value. -/
def Reader.steady (u : α) : Bool :=
  let ends := a.kind u = .stop ∨ a.kind u = .opens
  match r.mode with
  | .gap => a.kind u ≠ .escape ∧ (ends → r.headed a)
  | .bare => a.kind u ≠ .escape ∧ (r.word.all Sum.isLeft ∨ ends ∧ ¬ r.dollar ∨
      [Kind.plain,.paren,.dollar,.blank,.newline].contains (a.kind u)) ∧ (ends → r.headed a)
  | _ => true

/-- Whether a variable may be read. -/
def Reader.accepts : Bool := !r.escaped && !r.dollar && r.mode ≠ .ended && (r.mode ≠ .gap || !r.words.isEmpty)

/-- What is read of a text with variables, and in which mode each of them, unless what is read
depends on their values. -/
def scan (r : Reader (α ⊕ κ)) : List (α ⊕ κ) → Option (List (Item (α ⊕ κ)) × List (Mode × κ))
  | [] => r.finish.map fun all => (all,[])
  | .inl u::rest =>
    if r.steady a u then (r.read a.withVariables (.inl u)).bind fun next => scan next rest else none
  | .inr k::rest =>
    if r.accepts then
      (r.read a.withVariables (.inr k)).bind fun next => (scan next rest).map fun s => (s.1,(r.mode,k)::s.2)
    else none

end Scan

/-- What a value may be for a variable that is read in a mode. -/
def Fits (a : Alphabet α) : Mode → List α → Prop
  | .gap, s | .bare, s => ∀ u ∈ s, a.kind u = .plain ∨ a.kind u = .paren ∨ a.kind u = .blank
  | .single, s => ∀ u ∈ s, a.kind u ≠ .single ∧ a.kind u ≠ .escape ∧ a.kind u ≠ .dollar
  | .double, s => ∀ u ∈ s, a.kind u ≠ .double ∧ a.kind u ≠ .escape ∧ a.kind u ≠ .dollar
  | .comment, s => ∀ u ∈ s, a.kind u ≠ .newline
  | .ended, _ => False

instance (a : Alphabet α) (m : Mode) (s : List α) : Decidable (Fits a m s) :=
  match m with
  | .gap | .bare => inferInstanceAs (Decidable (∀ u ∈ s, a.kind u = .plain ∨ a.kind u = .paren ∨ a.kind u = .blank))
  | .single => inferInstanceAs (Decidable (∀ u ∈ s, a.kind u ≠ .single ∧ a.kind u ≠ .escape ∧ a.kind u ≠ .dollar))
  | .double => inferInstanceAs (Decidable (∀ u ∈ s, a.kind u ≠ .double ∧ a.kind u ≠ .escape ∧ a.kind u ≠ .dollar))
  | .comment => inferInstanceAs (Decidable (∀ u ∈ s, a.kind u ≠ .newline))
  | .ended => inferInstanceAs (Decidable False)

/-! ## What the values leave as it is -/

section Parts
variable {a : Alphabet α} {s : List α} {u : α}

theorem parts_blank (s : List α) (blank : a.kind u = .blank) : parts a (s ++ [u]) = (spread a s,[]) := by
  rw [parts,List.foldl_append,← parts,List.foldl_cons,List.foldl_nil,if_pos blank,spread]
  cases (parts a s).2 <;> simp

theorem parts_plain (s : List α) (other : a.kind u ≠ .blank) : parts a (s ++ [u]) = ((parts a s).1,(parts a s).2 ++ [u]) := by
  rw [parts,List.foldl_append,← parts,List.foldl_cons,List.foldl_nil,if_neg other]

theorem parts_free (free : ∀ u ∈ s, a.kind u ≠ .blank) : parts a s = ([],s) := by
  induction s using List.reverseRecOn with
  | nil => rfl
  | append_singleton s u ih =>
    rw [parts_plain s (free u (by simp)),ih fun v member => free v (by simp [member])]

/-- A text that begins with a word has one. -/
theorem spread_filled (first : a.kind u ≠ .blank) (s : List α) : spread a (u::s) ≠ [] := by
  suffices some : (parts a (u::s)).1 ≠ [] ∨ (parts a (u::s)).2 ≠ [] by
    rw [spread]
    cases last : (parts a (u::s)).2 <;> simp_all
  induction s using List.reverseRecOn with
  | nil =>
    have one : parts a [u] = ([],[u]) := parts_plain [] first
    exact Or.inr (by simp [one])
  | append_singleton s v ih =>
    rw [← List.cons_append]
    by_cases blank : a.kind v = .blank
    · rw [parts_blank _ blank,spread]
      refine Or.inl ?_
      cases last : (parts a (u::s)).2 <;> simp_all
    · rw [parts_plain _ blank]
      exact Or.inr (by simp)

end Parts

section Values
variable (a : Alphabet α) (value : κ → List α)

@[simp] theorem fill_append (s t : List (α ⊕ κ)) : fill value (s ++ t) = fill value s ++ fill value t := List.flatMap_append

@[simp] theorem fill_unit (u : α) : fill value [.inl u] = [u] := rfl

@[simp] theorem fill_variable (k : κ) : fill value [.inr k] = value k := by simp [fill]

theorem fill_literal (s : List α) : fill value (s.map .inl) = s := by
  simp [fill,List.flatMap_map]

theorem fill_intercalate (sep : List (α ⊕ κ)) (parts : List (List (α ⊕ κ))) :
    fill value (sep.intercalate parts) = (fill value sep).intercalate (parts.map (fill value)) := by
  induction parts with
  | nil => rfl
  | cons first rest ih =>
    cases rest with
    | nil => simp [List.intercalate_singleton]
    | cons next later =>
      simp only [List.intercalate_cons_cons,fill_append,ih,List.map_cons]

theorem fill_congr {value other : κ → List α} {s : List (α ⊕ κ)} (same : ∀ k, Sum.inr k ∈ s → value k = other k) :
    fill value s = fill other s := by
  induction s with
  | nil => rfl
  | cons u rest ih =>
    have later := ih fun k own => same k (List.mem_cons_of_mem _ own)
    rw [fill,List.flatMap_cons,← fill,later]
    cases u with
    | inl u => rfl
    | inr k =>
      have first := same k List.mem_cons_self
      rw [Sum.elim_inr,first]
      rfl

/-- The reader of the text with the values, of which a bare text has been read. -/
def Reader.filled (r : Reader (α ⊕ κ)) (words : List (Word α)) (text : List α) (mode : Mode) : Reader α :=
  ⟨r.items.map (Item.fill a value),r.words.flatMap (Word.fill a value) ++ words,text,mode,r.escaped,r.dollar⟩

def Reader.bareAt (r : Reader (α ⊕ κ)) (text : List α) : Reader α :=
  r.filled a value ((parts a text).1.map (Word.mk false)) (parts a text).2
    (if (parts a text).2.isEmpty then .gap else .bare)

def Reader.fill (r : Reader (α ⊕ κ)) : Reader α :=
  match r.mode with
  | .gap | .bare => r.bareAt a value (Directives.fill value r.word)
  | mode => r.filled a value [] (Directives.fill value r.word) mode

/-- Between words no part of one has been read, and a bare word has no blank of its own. -/
structure Reader.Sound (r : Reader (α ⊕ κ)) : Prop where
  idle : r.mode = .gap ∨ r.mode = .ended ∨ r.mode = .comment → r.word = [] ∧ r.escaped = false ∧ r.dollar = false
  bare : r.mode = .bare → r.escaped = false ∧ r.word ≠ [] ∧ ∀ u, Sum.inl u ∈ r.word → a.kind u ≠ .blank
  last : r.mode = .bare → r.dollar = true → ∃ word u, r.word = word ++ [.inl u]

end Values

section Step
variable {a : Alphabet α} {value : κ → List α} {r next : Reader (α ⊕ κ)} {u : α}

@[simp] theorem kind_unit (u : α) : (a.withVariables (κ := κ)).kind (.inl u) = a.kind u := rfl

@[simp] theorem kind_variable (k : κ) : a.withVariables.kind (.inr k) = .plain := rfl

theorem fill_gap (sound : r.Sound a) (mode : r.mode = .gap) : r.fill a value = r.filled a value [] [] .gap := by
  rw [Reader.fill,mode,(sound.idle (Or.inl mode)).1]
  simp [Reader.bareAt,parts,fill]

/-- A directive has a word for any values. -/
theorem headed_filled {words : List (Word (α ⊕ κ))} {word : Word (α ⊕ κ)}
    (headed : (word.quoted || word.text.head?.any fun u => u.elim (fun u => a.kind u != .blank) fun _ => false) = true) :
    (word::words).flatMap (Word.fill a value) ≠ [] := by
  rw [List.flatMap_cons]
  refine List.append_ne_nil_of_left_ne_nil ?_ _
  rw [Word.fill]
  split_ifs with quoted
  · simp
  · obtain ⟨first,own,literal⟩ : ∃ first, word.text.head? = some first ∧
        first.elim (fun u => a.kind u != .blank) (fun _ => false) = true := by
      simpa [quoted,Option.any_eq_true] using headed
    obtain ⟨rest,text⟩ := List.head?_eq_some_iff.mp own
    cases first with
    | inr k => cases literal
    | inl v =>
      have plain : a.kind v ≠ .blank := by simpa using literal
      have filled := spread_filled plain (Directives.fill value rest)
      rw [text]
      simpa [fill] using filled

theorem read_gap (sound : r.Sound a) (mode : r.mode = .gap) (steady : r.steady a u = true)
    (read : r.read a.withVariables (.inl u) = some next) :
    (r.fill a value).read a u = some (next.fill a value) ∧ next.Sound a := by
  obtain ⟨items,words,word,rmode,escaped,dollar⟩ := r
  obtain rfl : rmode = .gap := mode
  obtain ⟨rfl,rfl,rfl⟩ : word = [] ∧ escaped = false ∧ dollar = false := sound.idle (Or.inl rfl)
  have filled (some : words ≠ []) (ends : a.kind u = .stop ∨ a.kind u = .opens) :
      words.flatMap (Word.fill a value) ≠ [] := by
    obtain ⟨word,rest,rfl⟩ := List.exists_cons_of_ne_nil some
    refine headed_filled ?_
    simp_all [Reader.steady,Reader.headed]
  rw [fill_gap sound rfl]
  simp only [Reader.read,Reader.readGap,kind_unit,Bool.false_eq_true,if_false,Reader.filled,List.append_nil] at read ⊢
  have idle (items : List (Item (α ⊕ κ))) (words : List (Word (α ⊕ κ))) (m : Mode) (other : m ≠ .bare) :
      (⟨items,words,[],m,false,false⟩ : Reader (α ⊕ κ)).Sound a :=
    ⟨fun _ => ⟨rfl,rfl,rfl⟩,fun same => absurd same other,fun same => absurd same other⟩
  have started (d : Bool) (other : a.kind u ≠ .blank) :
      (⟨items,words,[.inl u],.bare,false,d⟩ : Reader (α ⊕ κ)).Sound a := by
    refine ⟨by simp,fun _ => ⟨rfl,by simp,fun v own => ?_⟩,fun _ _ => ⟨[],u,rfl⟩⟩
    obtain rfl : v = u := by simpa using own
    exact other
  cases kind : a.kind u <;> simp only [kind] at read ⊢
  case plain | paren | dollar =>
    obtain rfl := Option.some.inj read
    have other : a.kind u ≠ .blank := by simp [kind]
    have one : parts a [u] = ([],[u]) := parts_plain [] other
    exact ⟨by simp [Reader.fill,Reader.bareAt,Reader.filled,Reader.push,one],started _ other⟩
  case blank | newline =>
    obtain rfl := Option.some.inj read
    exact ⟨by simp [Reader.fill,Reader.bareAt,Reader.filled,parts,fill],idle _ _ _ (by simp)⟩
  case stop | opens =>
    split_ifs at read with none
    obtain rfl := Option.some.inj read
    have some := filled (by simpa using none) (by simp [kind])
    rw [if_neg (mt List.isEmpty_iff.mp some)]
    exact ⟨by simp [Reader.fill,Reader.bareAt,Reader.filled,Reader.endItem,Item.fill,parts,fill],idle _ _ _ (by simp)⟩
  case closes =>
    split_ifs at read with none
    obtain rfl := Option.some.inj read
    obtain rfl : words = [] := by simpa using none
    exact ⟨by simp [Reader.fill,Reader.bareAt,Reader.filled,Item.fill,parts,fill],idle _ _ _ (by simp)⟩
  case comment =>
    obtain rfl := Option.some.inj read
    exact ⟨by simp [Reader.fill,Reader.filled,fill],idle _ _ _ (by simp)⟩
  case escape => simp [Reader.steady,kind] at steady
  case single | double =>
    obtain rfl := Option.some.inj read
    exact ⟨by simp [Reader.fill,Reader.filled,fill],by simp,by simp,by simp⟩

section Bare
variable {items : List (Item (α ⊕ κ))} {words : List (Word (α ⊕ κ))} {word : List (α ⊕ κ)} {dollar : Bool}

theorem literals_begun (literal : word.all Sum.isLeft = true) (free : ∀ u, Sum.inl u ∈ word → a.kind u ≠ .blank)
    (begun : word ≠ []) : (parts a (fill value word)).2 ≠ [] := by
  obtain ⟨front,last,rfl⟩ := List.eq_nil_or_concat word |>.resolve_left begun
  rw [List.concat_eq_append] at literal free ⊢
  rw [List.all_append,List.all_cons,List.all_nil,Bool.and_true,Bool.and_eq_true] at literal
  obtain ⟨v,rfl⟩ := Sum.isLeft_iff.mp literal.2
  rw [fill_append,fill_unit,parts_plain _ (free v (by simp))]
  simp

variable (sound : (⟨items,words,word,.bare,false,dollar⟩ : Reader (α ⊕ κ)).Sound a)
include sound

theorem sound_push (d : Bool) (other : a.kind u ≠ .blank) :
    (⟨items,words,word ++ [.inl u],.bare,false,d⟩ : Reader (α ⊕ κ)).Sound a := by
  refine ⟨by simp,fun _ => ⟨rfl,by simp,fun v own => ?_⟩,fun _ _ => ⟨word,u,rfl⟩⟩
  rcases List.mem_append.mp own with before | one
  · exact (sound.bare rfl).2.2 v before
  · obtain rfl : v = u := by simpa using one
    exact other

omit sound in
theorem fill_push (d : Bool) (other : a.kind u ≠ .blank) :
    (⟨items,words,word ++ [.inl u],.bare,false,d⟩ : Reader (α ⊕ κ)).fill a value =
      ⟨items.map (Item.fill a value),words.flatMap (Word.fill a value) ++ (parts a (fill value word)).1.map (Word.mk false),
        (parts a (fill value word)).2 ++ [u],.bare,false,d⟩ := by
  simp [Reader.fill,Reader.bareAt,Reader.filled,parts_plain _ other]

omit sound in
theorem sound_gap : (⟨items,words,[],.gap,false,false⟩ : Reader (α ⊕ κ)).Sound a :=
  ⟨fun _ => ⟨rfl,rfl,rfl⟩,by simp,by simp⟩

omit sound in
theorem fill_idle : (⟨items,words,[],.gap,false,false⟩ : Reader (α ⊕ κ)).fill a value =
    ⟨items.map (Item.fill a value),words.flatMap (Word.fill a value),[],.gap,false,false⟩ := by
  simp [Reader.fill,Reader.bareAt,Reader.filled,parts,fill]

omit sound in
theorem headed_words (headed : (⟨items,words,word,.bare,false,dollar⟩ : Reader (α ⊕ κ)).headed a = true) :
    words.flatMap (Word.fill a value) ++ (spread a (fill value word)).map (Word.mk false) ≠ [] := by
  have whole : words.flatMap (Word.fill a value) ++ (spread a (fill value word)).map (Word.mk false) =
      (words ++ [Word.mk false word]).flatMap (Word.fill a value) := by
    simp [Word.fill]
  obtain ⟨first,rest,split⟩ := List.exists_cons_of_ne_nil (List.append_ne_nil_of_right_ne_nil words
    (List.cons_ne_nil (⟨false,word⟩ : Word (α ⊕ κ)) []))
  rw [Reader.headed] at headed
  simp only [split] at headed
  rw [whole,split]
  exact headed_filled headed

/-- A word that a value has ended, or that has no value to begin it. -/
theorem read_over (spans : (parts a (fill value word)).2 = [])
    (steady : (⟨items,words,word,.bare,false,dollar⟩ : Reader (α ⊕ κ)).steady a u = true)
    (read : (⟨items,words,word,.bare,false,dollar⟩ : Reader (α ⊕ κ)).read a.withVariables (.inl u) = some next) :
    ((⟨items,words,word,.bare,false,dollar⟩ : Reader (α ⊕ κ)).fill a value).read a u = some (next.fill a value) ∧
      next.Sound a := by
  obtain ⟨_,begun,free⟩ := sound.bare rfl
  obtain rfl : dollar = false := by
    by_contra some
    obtain ⟨front,v,rfl⟩ := sound.last rfl (by simpa using some)
    rw [fill_append,fill_unit,parts_plain _ (free v (by simp))] at spans
    simp at spans
  have mixed : word.all Sum.isLeft = false := by
    by_contra literal
    exact literals_begun (by simpa using literal) free begun spans
  have words' : spread a (fill value word) = (parts a (fill value word)).1 := by
    simp [spread,spans]
  have filled : (⟨items,words,word,.bare,false,false⟩ : Reader (α ⊕ κ)).fill a value =
      ⟨items.map (Item.fill a value),words.flatMap (Word.fill a value) ++ (spread a (fill value word)).map (Word.mk false),
        [],.gap,false,false⟩ := by
    simp [Reader.fill,Reader.bareAt,Reader.filled,spans,words']
  rw [filled]
  simp only [Reader.read,Reader.readWord,Reader.readGap,kind_unit,Bool.false_eq_true,if_false,and_false] at read ⊢
  simp only [Reader.steady,mixed,Bool.false_eq_true,false_or] at steady
  cases kind : a.kind u <;> simp only [kind] at read steady ⊢
  case plain | paren | dollar =>
    obtain rfl := Option.some.inj read
    have other : a.kind u ≠ .blank := by simp [kind]
    exact ⟨by simp [Reader.push,fill_push _ other,spans,words'],sound_push sound _ other⟩
  case blank | newline =>
    obtain rfl := Option.some.inj read
    exact ⟨by simp [Reader.endWord,fill_idle,Word.fill],sound_gap⟩
  case stop | opens =>
    obtain rfl := Option.some.inj read
    have some := @headed_words _ _ a value items words word false (by simpa using steady)
    rw [if_neg (mt List.isEmpty_iff.mp some)]
    exact ⟨by simp [Reader.endItem,Reader.endWord,fill_idle,Item.fill,Word.fill],sound_gap⟩
  all_goals simp at steady

/-- A word that goes on. -/
theorem read_inside (inside : (parts a (fill value word)).2 ≠ [])
    (steady : (⟨items,words,word,.bare,false,dollar⟩ : Reader (α ⊕ κ)).steady a u = true)
    (read : (⟨items,words,word,.bare,false,dollar⟩ : Reader (α ⊕ κ)).read a.withVariables (.inl u) = some next) :
    ((⟨items,words,word,.bare,false,dollar⟩ : Reader (α ⊕ κ)).fill a value).read a u = some (next.fill a value) ∧
      next.Sound a := by
  have words' : spread a (fill value word) = (parts a (fill value word)).1 ++ [(parts a (fill value word)).2] := by
    simp [spread,inside]
  have filled : (⟨items,words,word,.bare,false,dollar⟩ : Reader (α ⊕ κ)).fill a value =
      ⟨items.map (Item.fill a value),words.flatMap (Word.fill a value) ++ (parts a (fill value word)).1.map (Word.mk false),
        (parts a (fill value word)).2,.bare,false,dollar⟩ := by
    simp [Reader.fill,Reader.bareAt,Reader.filled,inside]
  rw [filled]
  simp only [Reader.read,Reader.readWord,kind_unit,Bool.false_eq_true,if_false] at read ⊢
  simp only [Reader.steady] at steady
  cases kind : a.kind u <;> simp only [kind,reduceCtorEq,false_and,true_and,if_false] at read steady ⊢
  case blank | newline =>
    obtain rfl := Option.some.inj read
    exact ⟨by simp [Reader.endWord,fill_idle,Word.fill,words'],sound_gap⟩
  case stop =>
    obtain rfl := Option.some.inj read
    exact ⟨by simp [Reader.endItem,Reader.endWord,fill_idle,Item.fill,Word.fill,words'],sound_gap⟩
  case opens =>
    split_ifs at read ⊢ with variable'
    · obtain rfl := Option.some.inj read
      have other : a.kind u ≠ .blank := by simp [kind]
      exact ⟨by simp [Reader.push,fill_push _ other],sound_push sound _ other⟩
    · obtain rfl := Option.some.inj read
      exact ⟨by simp [Reader.endItem,Reader.endWord,fill_idle,Item.fill,Word.fill,words'],sound_gap⟩
  case escape => simp at steady
  all_goals
    obtain rfl := Option.some.inj read
    have other : a.kind u ≠ .blank := by simp [kind]
    exact ⟨by simp [Reader.push,fill_push _ other],sound_push sound _ other⟩

end Bare

theorem read_quoted (mode : r.mode = .single ∨ r.mode = .double) (read : r.read a.withVariables (.inl u) = some next) :
    (r.fill a value).read a u = some (next.fill a value) ∧ next.Sound a := by
  obtain ⟨items,words,word,rmode,escaped,dollar⟩ := r
  have own (word : List (α ⊕ κ)) (e d : Bool) : (⟨items,words,word,rmode,e,d⟩ : Reader (α ⊕ κ)).fill a value =
      ⟨items.map (Item.fill a value),words.flatMap (Word.fill a value),fill value word,rmode,e,d⟩ := by
    rcases mode with rfl | rfl <;> simp [Reader.fill,Reader.filled]
  have sound (word : List (α ⊕ κ)) (e d : Bool) : (⟨items,words,word,rmode,e,d⟩ : Reader (α ⊕ κ)).Sound a := by
    rcases mode with rfl | rfl <;> exact ⟨by simp,by simp,by simp⟩
  have push (d : Bool) : (⟨items,words,word ++ a.withVariables.short (.inl u),rmode,false,d⟩ : Reader (α ⊕ κ)).fill a value =
      ⟨items.map (Item.fill a value),words.flatMap (Word.fill a value),fill value word ++ a.short u,rmode,false,d⟩ := by
    have short : fill value (a.withVariables.short (.inl u)) = a.short u := fill_literal value (a.short u)
    rw [own,fill_append,short]
  have ended : (⟨items,words ++ [⟨true,word⟩],[],.ended,false,false⟩ : Reader (α ⊕ κ)).fill a value =
      ⟨items.map (Item.fill a value),words.flatMap (Word.fill a value) ++ [⟨true,fill value word⟩],[],.ended,false,false⟩ := by
    simp [Reader.fill,Reader.filled,Word.fill,fill]
  have sound' : (⟨items,words ++ [⟨true,word⟩],[],.ended,false,false⟩ : Reader (α ⊕ κ)).Sound a :=
    ⟨fun _ => ⟨rfl,rfl,rfl⟩,by simp,by simp⟩
  have more (d : Bool) : ((⟨items,words,word ++ [.inl u],rmode,false,d⟩ : Reader (α ⊕ κ)).fill a value) =
      ⟨items.map (Item.fill a value),words.flatMap (Word.fill a value),fill value word ++ [u],rmode,false,d⟩ := by
    rw [own,fill_append,fill_unit]
  rw [own]
  cases escaped with
  | true =>
    simp only [Reader.read,if_true] at read ⊢
    obtain rfl := Option.some.inj read
    exact ⟨congrArg some (push _).symm,sound _ _ _⟩
  | false =>
    have modes : rmode = .single ∨ rmode = .double := mode
    rcases modes with rfl | rfl
    all_goals
      simp only [Reader.read,Reader.readWord,kind_unit,Bool.false_eq_true,if_false] at read ⊢
      cases kind : a.kind u <;> simp only [kind,reduceCtorEq,false_and,true_and,if_false] at read ⊢
      case opens =>
        split_ifs at read ⊢
        all_goals
          obtain rfl := Option.some.inj read
          exact ⟨congrArg some (more _).symm,sound _ _ _⟩
      all_goals
        obtain rfl := Option.some.inj read
        first
          | exact ⟨congrArg some ended.symm,sound'⟩
          | exact ⟨congrArg some (more _).symm,sound _ _ _⟩
          | exact ⟨congrArg some (own _ _ _).symm,sound _ _ _⟩

/-- Between a quoted word and the next blank, and in a comment. -/
theorem read_after (sound : r.Sound a) (mode : r.mode = .ended ∨ r.mode = .comment)
    (read : r.read a.withVariables (.inl u) = some next) :
    (r.fill a value).read a u = some (next.fill a value) ∧ next.Sound a := by
  obtain ⟨items,words,word,rmode,escaped,dollar⟩ := r
  obtain ⟨rfl,rfl,rfl⟩ : word = [] ∧ escaped = false ∧ dollar = false := by
    refine sound.idle ?_
    rcases mode with rfl | rfl <;> simp
  have comment : (⟨items,words,[],.comment,false,false⟩ : Reader (α ⊕ κ)).Sound a := ⟨fun _ => ⟨rfl,rfl,rfl⟩,by simp,by simp⟩
  have modes : rmode = .ended ∨ rmode = .comment := mode
  rcases modes with rfl | rfl
  · have own : (⟨items,words,[],.ended,false,false⟩ : Reader (α ⊕ κ)).fill a value =
        ⟨items.map (Item.fill a value),words.flatMap (Word.fill a value),[],.ended,false,false⟩ := by
      simp [Reader.fill,Reader.filled,fill]
    rw [own]
    simp only [Reader.read,Reader.readEnded,kind_unit,Bool.false_eq_true,if_false] at read ⊢
    cases kind : a.kind u <;> simp only [kind,reduceCtorEq] at read ⊢ <;> obtain rfl := Option.some.inj read
    case blank | newline => exact ⟨congrArg some fill_idle.symm,sound_gap⟩
    case stop | opens => exact ⟨by simp [Reader.endItem,fill_idle,Item.fill],sound_gap⟩
    case paren =>
      have other : a.kind u ≠ .blank := by simp [kind]
      have one : parts a [u] = ([],[u]) := parts_plain [] other
      refine ⟨by simp [Reader.push,Reader.fill,Reader.bareAt,Reader.filled,one],?_⟩
      exact ⟨by simp,fun _ => ⟨rfl,by simp [Reader.push],by simpa [Reader.push] using other⟩,by simp [Reader.push]⟩
  · have own : (⟨items,words,[],.comment,false,false⟩ : Reader (α ⊕ κ)).fill a value =
        ⟨items.map (Item.fill a value),words.flatMap (Word.fill a value),[],.comment,false,false⟩ := by
      simp [Reader.fill,Reader.filled,fill]
    rw [own]
    by_cases newline : a.kind u = .newline
    · simp only [Reader.read,kind_unit,newline,Bool.false_eq_true,if_false,if_true] at read ⊢
      obtain rfl := Option.some.inj read
      exact ⟨congrArg some fill_idle.symm,sound_gap⟩
    · simp only [Reader.read,kind_unit,newline,Bool.false_eq_true,if_false] at read ⊢
      obtain rfl := Option.some.inj read
      exact ⟨congrArg some own.symm,comment⟩

/-- A unit is read with the values as it is without them. -/
theorem read_unit (sound : r.Sound a) (steady : r.steady a u = true) (read : r.read a.withVariables (.inl u) = some next) :
    (r.fill a value).read a u = some (next.fill a value) ∧ next.Sound a := by
  cases mode : r.mode with
  | gap => exact read_gap sound mode steady read
  | bare =>
    obtain ⟨items,words,word,rmode,escaped,dollar⟩ := r
    obtain rfl : rmode = .bare := mode
    obtain rfl : escaped = false := (sound.bare rfl).1
    by_cases spans : (parts a (fill value word)).2 = []
    · exact read_over sound spans steady read
    · exact read_inside sound spans steady read
  | single => exact read_quoted (Or.inl mode) read
  | double => exact read_quoted (Or.inr mode) read
  | ended => exact read_after sound (Or.inl mode) read
  | comment => exact read_after sound (Or.inr mode) read

theorem reads_bare (idle : r.escaped = false ∧ r.dollar = false) {s : List α} (fits : Fits a .bare s) (text : List α) :
    s.foldlM (Reader.read a) (r.bareAt a value text) = some (r.bareAt a value (text ++ s)) := by
  induction s generalizing text with
  | nil => simp
  | cons u rest ih =>
    have one : (r.bareAt a value text).read a u = some (r.bareAt a value (text ++ [u])) := by
      obtain ⟨unescaped,plain⟩ := idle
      have unit := fits u (by simp)
      by_cases blank : a.kind u = .blank
      · cases last : (parts a text).2 with
        | nil => simp [Reader.read,Reader.readGap,Reader.bareAt,Reader.filled,unescaped,blank,last,parts_blank,spread]
        | cons v later =>
          simp [Reader.read,Reader.readWord,Reader.bareAt,Reader.filled,Reader.endWord,unescaped,plain,blank,last,parts_blank,spread]
      · have other : a.kind u = .plain ∨ a.kind u = .paren := by simpa [blank] using unit
        cases last : (parts a text).2 with
        | nil =>
          rcases other with kind | kind <;>
            simp [Reader.read,Reader.readGap,Reader.bareAt,Reader.filled,Reader.push,unescaped,kind,last,parts_plain]
        | cons v later =>
          rcases other with kind | kind <;>
            simp [Reader.read,Reader.readWord,Reader.bareAt,Reader.filled,Reader.push,unescaped,plain,kind,last,parts_plain]
    rw [List.foldlM_cons,one]
    have later := ih (fun v member => fits v (by simp [member])) (text ++ [u])
    rw [List.append_assoc] at later
    exact later

theorem reads_quoted {items : List (Item α)} {words : List (Word α)} {m : Mode} (mode : m = .single ∨ m = .double) {s : List α}
    (fits : Fits a m s) (text : List α) :
    s.foldlM (Reader.read a) ⟨items,words,text,m,false,false⟩ = some ⟨items,words,text ++ s,m,false,false⟩ := by
  induction s generalizing text with
  | nil => simp
  | cons u rest ih =>
    have one : (⟨items,words,text,m,false,false⟩ : Reader α).read a u = some ⟨items,words,text ++ [u],m,false,false⟩ := by
      rcases mode with rfl | rfl
      all_goals
        have unit := fits u (by simp)
        simp only [Reader.read,Reader.readWord,Bool.false_eq_true,if_false,and_false]
        cases kind : a.kind u <;> simp_all [Reader.push]
    have later := ih (by rcases mode with rfl | rfl <;> exact fun v member => fits v (by simp [member])) (text ++ [u])
    rw [List.append_assoc] at later
    rw [List.foldlM_cons,one]
    exact later

theorem reads_comment {r : Reader α} (mode : r.mode = .comment) (unescaped : r.escaped = false) {s : List α}
    (fits : Fits a .comment s) : s.foldlM (Reader.read a) r = some r := by
  induction s with
  | nil => rfl
  | cons u rest ih =>
    have one : r.read a u = some r := by simp [Reader.read,unescaped,mode,fits u (by simp)]
    rw [List.foldlM_cons,one]
    exact ih fun v member => fits v (by simp [member])

/-- A value is read as its variable is, where it fits. -/
theorem read_value {k : κ} (sound : r.Sound a) (accepts : r.accepts = true) (fits : Fits a r.mode (value k))
    (read : r.read a.withVariables (.inr k) = some next) :
    (value k).foldlM (Reader.read a) (r.fill a value) = some (next.fill a value) ∧ next.Sound a := by
  obtain ⟨items,words,word,rmode,escaped,dollar⟩ := r
  simp only [Reader.accepts,Bool.and_eq_true,Bool.not_eq_true'] at accepts
  obtain ⟨⟨⟨rfl,rfl⟩,after⟩,_⟩ := accepts
  have begun (word : List (α ⊕ κ)) (free : ∀ u, Sum.inl u ∈ word → a.kind u ≠ .blank) :
      (⟨items,words,word ++ [.inr k],.bare,false,false⟩ : Reader (α ⊕ κ)).Sound a := by
    refine ⟨by simp,fun _ => ⟨rfl,by simp,fun u own => free u ?_⟩,by simp⟩
    simpa using own
  have quoted (m : Mode) (mode : m = .single ∨ m = .double) (word : List (α ⊕ κ)) :
      (⟨items,words,word,m,false,false⟩ : Reader (α ⊕ κ)).Sound a ∧
        (⟨items,words,word,m,false,false⟩ : Reader (α ⊕ κ)).fill a value =
          ⟨items.map (Item.fill a value),words.flatMap (Word.fill a value),fill value word,m,false,false⟩ := by
    rcases mode with rfl | rfl <;> exact ⟨⟨by simp,by simp,by simp⟩,by simp [Reader.fill,Reader.filled]⟩
  cases rmode with
  | gap =>
    obtain ⟨rfl,_⟩ := sound.idle (Or.inl rfl)
    simp only [Reader.read,Reader.readGap,kind_variable,Bool.false_eq_true,if_false] at read
    obtain rfl := Option.some.inj read
    have values := @reads_bare _ _ a value ⟨items,words,[],.gap,false,false⟩ ⟨rfl,rfl⟩ _ fits []
    refine ⟨values.trans (congrArg some ?_),begun [] (by simp)⟩
    simp [Reader.fill,Reader.push,Reader.bareAt,Reader.filled]
  | bare =>
    simp only [Reader.read,Reader.readWord,kind_variable,Bool.false_eq_true,if_false,reduceCtorEq,false_and] at read
    obtain rfl := Option.some.inj read
    have values := @reads_bare _ _ a value ⟨items,words,word,.bare,false,false⟩ ⟨rfl,rfl⟩ _ fits (fill value word)
    refine ⟨values.trans (congrArg some ?_),begun word (sound.bare rfl).2.2⟩
    simp [Reader.fill,Reader.push,Reader.bareAt,Reader.filled]
  | single | double =>
    simp only [Reader.read,Reader.readWord,kind_variable,Bool.false_eq_true,if_false,reduceCtorEq,false_and] at read
    obtain rfl := Option.some.inj read
    rw [(quoted _ (by simp) word).2]
    refine ⟨(reads_quoted (by simp) fits _).trans (congrArg some ?_),(quoted _ (by simp) _).1⟩
    rw [Reader.push,(quoted _ (by simp) _).2]
    simp
  | ended => simp at after
  | comment =>
    simp only [Reader.read,kind_variable,Bool.false_eq_true,if_false,reduceCtorEq] at read
    obtain rfl := Option.some.inj read
    exact ⟨reads_comment rfl rfl fits,sound⟩

theorem finish_fill (sound : r.Sound a) {all : List (Item (α ⊕ κ))} (done : r.finish = some all) :
    (r.fill a value).finish = some (all.map (Item.fill a value)) := by
  obtain ⟨items,words,word,rmode,escaped,dollar⟩ := r
  simp only [Reader.finish] at done
  split_ifs at done with idle
  obtain rfl := Option.some.inj done
  obtain ⟨empty,modes⟩ := idle
  obtain rfl : words = [] := by simpa using empty
  obtain ⟨rfl,rfl,rfl⟩ : word = [] ∧ escaped = false ∧ dollar = false := by
    refine sound.idle ?_
    rcases modes with rfl | rfl <;> simp
  rcases modes with rfl | rfl <;> simp [Reader.fill,Reader.bareAt,Reader.filled,Reader.finish,parts,fill]

/-- With values that fit, a text has the directives that were scanned with the values in them. -/
theorem items_fill {s : List (α ⊕ κ)} {all : List (Item (α ⊕ κ))} {uses : List (Mode × κ)}
    (scanned : scan a .initial s = some (all,uses)) (fits : ∀ use ∈ uses, Fits a use.1 (value use.2)) :
    items a (fill value s) = some (all.map (Item.fill a value)) := by
  have run (s : List (α ⊕ κ)) {r : Reader (α ⊕ κ)} (sound : r.Sound a) {all : List (Item (α ⊕ κ))} {uses : List (Mode × κ)}
      (scanned : scan a r s = some (all,uses)) (fits : ∀ use ∈ uses, Fits a use.1 (value use.2)) :
      ((fill value s).foldlM (Reader.read a) (r.fill a value)).bind Reader.finish = some (all.map (Item.fill a value)) := by
    induction s generalizing r all uses with
    | nil =>
      obtain ⟨_,done,same⟩ := Option.map_eq_some_iff.mp scanned
      obtain ⟨rfl,rfl⟩ := Prod.mk.inj same
      exact finish_fill sound done
    | cons u rest ih =>
      cases u with
      | inl u =>
        rw [scan] at scanned
        split_ifs at scanned with steady
        obtain ⟨next,read,later⟩ := Option.bind_eq_some_iff.mp scanned
        obtain ⟨step,sound'⟩ := read_unit sound steady read
        have whole : fill value (.inl u::rest) = u::fill value rest := rfl
        rw [whole,List.foldlM_cons,step]
        exact ih sound' later fits
      | inr k =>
        rw [scan] at scanned
        split_ifs at scanned with accepts
        obtain ⟨next,read,later⟩ := Option.bind_eq_some_iff.mp scanned
        obtain ⟨found,own,same⟩ := Option.map_eq_some_iff.mp later
        obtain ⟨rfl,rfl⟩ := Prod.mk.inj same
        obtain ⟨step,sound'⟩ := read_value sound accepts (fits _ List.mem_cons_self) read
        have whole : fill value (.inr k::rest) = value k ++ fill value rest := rfl
        rw [whole,List.foldlM_append,step]
        exact ih sound' own fun use member => fits use (List.mem_cons_of_mem _ member)
  have initial : (Reader.initial : Reader (α ⊕ κ)).fill a value = .initial := fill_idle
  rw [items,← initial]
  exact run s sound_gap scanned fits

end Step

/-! ## Directives of two arguments -/

/-- The arguments of a directive, if it is of this name and has two. -/
def arguments [DecidableEq α] (name : List α) : Item α → Option (List α × List α)
  | .simple [first,argument,other] => if first.text = name then some (argument.text,other.text) else none
  | _ => none

section Arguments
variable (a : Alphabet α)

/-- A bare word without blanks that is there for any values. -/
def Word.fixed (word : Word (α ⊕ κ)) : Bool :=
  !word.quoted && word.text.all (Sum.elim (fun u => a.kind u != .blank) fun _ => true) && word.text.head?.any Sum.isLeft

def fixedPair : List (Word (α ⊕ κ)) → Bool
  | [argument,other] => argument.fixed a && other.quoted
  | _ => false

/-- Whether the values make no other arguments of these, nor a directive of this name of another. -/
def Item.settled [DecidableEq α] [DecidableEq κ] (name : List α) : Item (α ⊕ κ) → Bool
  | .simple (first::rest) => first.fixed a && first.text.all Sum.isLeft && (first.text ≠ name.map .inl || fixedPair a rest)
  | .simple [] => false
  | _ => true

variable {a} {value : κ → List α}

theorem spread_free {s : List α} (filled : s ≠ []) (free : ∀ u ∈ s, a.kind u ≠ .blank) : spread a s = [s] := by
  rw [spread,parts_free free,List.nil_append,if_neg]
  simpa using filled

theorem fill_fixed {word : Word (α ⊕ κ)} (fixed : word.fixed a = true)
    (free : ∀ k, Sum.inr k ∈ word.text → ∀ u ∈ value k, a.kind u ≠ .blank) :
    Word.fill a value word = [⟨false,fill value word.text⟩] := by
  rw [Word.fixed,Bool.and_eq_true,Bool.and_eq_true,Bool.not_eq_true',List.all_eq_true] at fixed
  obtain ⟨⟨bare,blanks⟩,first⟩ := fixed
  have filled : fill value word.text ≠ [] := by
    cases text : word.text with
    | nil => simp [text] at first
    | cons u rest =>
      cases u with
      | inl u => simp [fill]
      | inr k => simp [text] at first
  have own : ∀ u ∈ fill value word.text, a.kind u ≠ .blank := by
    intro u inside
    obtain ⟨v,member,within⟩ := List.mem_flatMap.mp inside
    cases v with
    | inl v =>
      obtain rfl := List.mem_singleton.mp within
      simpa using blanks _ member
    | inr k => exact free k member u within
  rw [Word.fill,if_neg (by simp [bare]),spread_free filled own]
  rfl

theorem fill_lefts {s : List (α ⊕ κ)} (literal : s.all Sum.isLeft = true) : (fill value s).map .inl = s := by
  induction s with
  | nil => rfl
  | cons u rest ih =>
    rw [List.all_cons,Bool.and_eq_true] at literal
    cases u with
    | inl u =>
      have later := ih literal.2
      rw [fill] at later ⊢
      rw [List.flatMap_cons,List.map_append,later]
      rfl
    | inr k => cases literal.1

/-- With values, the arguments of a directive are the arguments with the values. -/
theorem arguments_fill [DecidableEq α] [DecidableEq κ] {name : List α} {item : Item (α ⊕ κ)} (settled : item.settled a name = true)
    (free : ∀ argument other, arguments (name.map .inl) item = some (argument,other) →
      ∀ k, Sum.inr k ∈ argument → ∀ u ∈ value k, a.kind u ≠ .blank) :
    arguments name (item.fill a value) =
      (arguments (name.map .inl) item).map fun pair => (fill value pair.1,fill value pair.2) := by
  have literal (k : κ) {s : List (α ⊕ κ)} (all : s.all Sum.isLeft = true) (own : Sum.inr k ∈ s) : False := by
    have left := List.all_eq_true.mp all _ own
    cases left
  cases item with
  | block words => rfl
  | close => rfl
  | simple words =>
    cases words with
    | nil => cases settled
    | cons first rest =>
      rw [Item.settled,Bool.and_eq_true,Bool.and_eq_true] at settled
      obtain ⟨⟨fixed,lefts⟩,shape⟩ := settled
      have head : Word.fill a value first = [⟨false,fill value first.text⟩] :=
        fill_fixed fixed fun k own => (literal k lefts own).elim
      by_cases named : first.text = name.map .inl
      · rw [decide_eq_false (not_not_intro named),Bool.false_or] at shape
        unfold fixedPair at shape
        split at shape
        · rename_i argument other
          rw [Bool.and_eq_true] at shape
          have arguments' : arguments (name.map .inl) (.simple [first,argument,other]) = some (argument.text,other.text) := if_pos named
          have second : Word.fill a value argument = [⟨false,fill value argument.text⟩] :=
            fill_fixed shape.1 (free _ _ arguments')
          have third : Word.fill a value other = [⟨true,fill value other.text⟩] := if_pos shape.2
          have whole : Item.fill a value (.simple [first,argument,other]) =
              .simple [⟨false,fill value first.text⟩,⟨false,fill value argument.text⟩,⟨true,fill value other.text⟩] := by
            simp [Item.fill,head,second,third]
          have same : fill value first.text = name := by
            rw [named]
            exact fill_literal value name
          rw [whole,arguments']
          exact if_pos same
        · cases shape
      · have other : fill value first.text ≠ name := fun same => named (by rw [← fill_lefts lefts,same])
        have filled {words : List (Word α)} : arguments name (.simple (⟨false,fill value first.text⟩::words)) = none := by
          unfold arguments
          split
          · rename_i found
            obtain ⟨rfl,_⟩ := List.cons.inj (Item.simple.inj found)
            exact if_neg other
          · rfl
        have unnamed : arguments (name.map .inl) (.simple (first::rest)) = none := by
          unfold arguments
          split
          · rename_i found
            obtain ⟨rfl,_⟩ := List.cons.inj (Item.simple.inj found)
            exact if_neg named
          · rfl
        have whole : Item.fill a value (.simple (first::rest)) =
            .simple (⟨false,fill value first.text⟩::rest.flatMap (Word.fill a value)) := by
          simp [Item.fill,head]
        rw [whole,filled,unnamed,Option.map_none]

end Arguments

end FipsShield.Directives
