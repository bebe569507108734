import FipsShield.Config.Script

/-! The custom layer as a list of keys and values: what the resolver reads of it, and what
it knows of the presets. -/
namespace FipsShield.Config
open Text Lines Banlist Numeral

/-! ## Env files -/

/-- A key and a value that a line can hold. -/
structure Entry where
  key : Str
  value : Str
  named : isIdentifier key = true
  single : 0x0A ∉ value

/-- A `KEY=VALUE` line, or one that is passed over. -/
inductive EnvLine where
  | assign (entry : Entry)
  | remark (text : Str) (single : 0x0A ∉ text) (skipped : text = [] ∨ text.head? = some 0x23 ∨ 0x3D ∉ text)

def EnvLine.text : EnvLine → Str
  | .assign entry => entry.key ++ 0x3D::entry.value
  | .remark text _ _ => text

def EnvLine.entry? : EnvLine → Option (Str × Str)
  | .assign entry => some (entry.key,entry.value)
  | .remark _ _ _ => none

def fileText (lines : List EnvLine) : Str := written 0x0A (lines.map EnvLine.text)

def entries (lines : List EnvLine) : List (Str × Str) := lines.filterMap EnvLine.entry?

/-- The value of the last entry with the key. -/
def last (layer : List (Str × Str)) (k : Str) : Option Str :=
  (layer.reverse.find? fun entry => entry.1 = k).map Prod.snd

theorem last_isSome {layer : List (Str × Str)} {k : Str} : (last layer k).isSome ↔ k ∈ layer.map Prod.fst := by
  simp [last]

theorem last_mem {layer : List (Str × Str)} {k v : Str} (found : last layer k = some v) : (k,v) ∈ layer := by
  obtain ⟨entry,own,rfl⟩ := Option.map_eq_some_iff.mp found
  have key : entry.1 = k := by simpa using List.find?_some own
  subst key
  exact List.mem_reverse.mp (List.mem_of_find?_eq_some own)

theorem last_only {layer : List (Str × Str)} {k v : Str} (own : (k,v) ∈ layer) (only : ∀ w, (k,w) ∈ layer → w = v) :
    last layer k = some v := by
  obtain ⟨w,found⟩ := Option.isSome_iff_exists.mp (last_isSome.mpr (List.mem_map_of_mem own))
  rw [found,only w (last_mem found)]

theorem last_concat (layer : List (Str × Str)) (entry : Str × Str) (k : Str) :
    last (layer ++ [entry]) k = if entry.1 = k then some entry.2 else last layer k := by
  rw [last,List.reverse_append,List.reverse_singleton,List.singleton_append,List.find?_cons]
  split_ifs with own <;> simp [own,last]

theorem lookup_foldl {ambient : Environment} (layer : List (Str × Str)) (k : Str) :
    (layer.foldl (fun env entry => env.insert entry.1 entry.2) ambient).lookup k =
      (last layer k).or (ambient.lookup k) := by
  induction layer using List.reverseRecOn with
  | nil => rfl
  | append_singleton earlier entry ih =>
    rw [List.foldl_append,last_concat,List.foldl_cons,List.foldl_nil]
    split_ifs with own
    · subst own
      simp [AList.lookup_insert]
    · rw [AList.lookup_insert_ne (Ne.symm own),ih]

def Proper (layer : List (Str × Str)) : Prop := ∀ entry ∈ layer, isIdentifier entry.1 = true ∧ 0x0A ∉ entry.2

theorem entries_proper (lines : List EnvLine) : Proper (entries lines) := by
  intro entry member
  obtain ⟨line,_,own⟩ := List.mem_filterMap.mp member
  cases line with
  | assign e =>
    obtain rfl := Option.some.inj own
    exact ⟨e.named,e.single⟩
  | remark text single skipped => simp [EnvLine.entry?] at own

/-- What `parse_envfile` prints is legible once it is divided at the tabs: a key begins like a
name and ends before the first tab. -/
def Legible (layer : List (Str × Str)) : Prop :=
  ∀ entry ∈ layer, entry.1.head?.any isLetter = true ∧ 0x09 ∉ entry.1 ∧ 0x0A ∉ entry.1 ∧ 0x0A ∉ entry.2

theorem identifier_ne_nil {key : Str} (named : isIdentifier key = true) : key ≠ [] := by
  rintro rfl
  simp [isIdentifier] at named

theorem identifier_free {key : Str} (named : isIdentifier key = true) {u : UInt16}
    (other : (isLetter u || isDigit u) = false) : u ∉ key := by
  intro member
  rw [isIdentifier,Bool.and_eq_true,List.all_eq_true] at named
  have own := named.2 u member
  rw [other] at own
  contradiction

theorem newline_iff (u : UInt16) : newline u = false ↔ u ≠ 0x0A := by simp [newline]

theorem single_free {s : Str} (single : 0x0A ∉ s) : ∀ u ∈ s, newline u = false := by
  intro u member
  rw [newline_iff]
  rintro rfl
  exact single member

theorem free_single {s : Str} (free : ∀ u ∈ s, newline u = false) : 0x0A ∉ s := fun member => by
  simpa [newline] using free _ member

theorem records_single (text : Str) {line : Str} (member : line ∈ records newline text) : 0x0A ∉ line :=
  free_single (records_free text line member)

theorem records_lines_written {lines : List Str} (single : ∀ line ∈ lines, 0x0A ∉ line) :
    records newline (written 0x0A lines) = lines :=
  records_written (by decide) fun line member => single_free (single line member)

/-- No letter and no digit is blank, a stop or an operator. -/
theorem identifier_stops {key : Str} (named : isIdentifier key = true) : 0x0A ∉ key ∧ 0x09 ∉ key ∧ 0x3D ∉ key :=
  ⟨identifier_free named (by decide),identifier_free named (by decide),identifier_free named (by decide)⟩

theorem letter_head {key : Str} (begins : key.head?.any isLetter = true) : ∃ u rest, key = u::rest ∧ isLetter u = true := by
  cases key with
  | nil => cases begins
  | cons u rest => exact ⟨u,rest,rfl,begins⟩

theorem identifier_letter {key : Str} (named : isIdentifier key = true) : key.head?.any isLetter = true := by
  rw [isIdentifier,Bool.and_eq_true] at named
  exact named.1

theorem identifier_head {key : Str} (named : isIdentifier key = true) : ∃ u rest, key = u::rest ∧ isLetter u = true :=
  letter_head (identifier_letter named)

theorem Proper.legible {layer : List (Str × Str)} (proper : Proper layer) : Legible layer := by
  intro entry member
  obtain ⟨named,single⟩ := proper entry member
  obtain ⟨line,tab,_⟩ := identifier_stops named
  exact ⟨identifier_letter named,tab,line,single⟩

theorem setting_entry (entry : Entry) : setting (EnvLine.assign entry).text = some (entry.key,entry.value) := by
  obtain ⟨_,_,free⟩ := identifier_stops entry.named
  obtain ⟨u,rest,key,letter⟩ := identifier_head entry.named
  have head : (entry.key ++ 0x3D::entry.value).head? ≠ some 0x23 := by
    rw [key]
    rintro ⟨⟩
    exact absurd letter (by decide)
  have filled : entry.key ++ 0x3D::entry.value ≠ [] := by simp
  rw [EnvLine.text,setting,if_neg (not_or.mpr ⟨filled,head⟩),if_neg (by simp),before_stop free,after_stop free,if_pos]
  rw [key]
  exact letter

theorem setting_line (line : EnvLine) : setting line.text = line.entry? := by
  cases line with
  | assign entry => exact setting_entry entry
  | remark text single skipped =>
    rw [EnvLine.text,EnvLine.entry?,setting]
    split_ifs with passed none
    · rfl
    · rfl
    · simp at none
      tauto
    · rfl

theorem line_single (line : EnvLine) : 0x0A ∉ line.text := by
  cases line with
  | assign entry =>
    obtain ⟨free,_,_⟩ := identifier_stops entry.named
    simp [EnvLine.text,free,entry.single]
  | remark text single skipped => exact single

/-- What `parse_envfile` prints of a file are its entries, key and value apart. -/
theorem settings_file (lines : List EnvLine) : settings (fileText lines) = entries lines := by
  rw [settings,fileText,records_lines_written,List.filterMap_map,entries]
  · congr 1
    funext line
    exact setting_line line
  · intro text member
    obtain ⟨line,_,rfl⟩ := List.mem_map.mp member
    exact line_single line

theorem settings_single {text : Str} {entry : Str × Str} (member : entry ∈ settings text) : 0x0A ∉ entry.2 := by
  obtain ⟨line,within,own⟩ := List.mem_filterMap.mp member
  rw [setting] at own
  split_ifs at own with skipped none letter
  obtain rfl := Option.some.inj own
  exact fun inside => records_single text within (after_subset 0x3D line inside)

theorem settings_key {text : Str} {entry : Str × Str} (member : entry ∈ settings text) :
    entry.1.head?.any isLetter = true ∧ 0x0A ∉ entry.1 ∧ 0x3D ∉ entry.1 := by
  obtain ⟨line,within,own⟩ := List.mem_filterMap.mp member
  rw [setting] at own
  split_ifs at own with skipped none letter
  obtain rfl := Option.some.inj own
  exact ⟨letter,fun inside => records_single text within (before_subset 0x3D line inside),before_free 0x3D line⟩

/-! ## Any file -/

/-- What `parse_envfile` prints of any file, each line divided at its first tab. -/
def divided (text : Str) : List (Str × Str) := (settings text).map fun entry =>
  (before 0x09 (tabbed entry),after 0x09 (tabbed entry))

theorem parseEnvfile_divided (text : Str) : parseEnvfile text = written 0x0A ((divided text).map tabbed) := by
  rw [parseEnvfile,divided,List.map_map]
  refine congrArg (written 0x0A) (List.map_congr_left fun entry _ => ?_)
  have tab : 0x09 ∈ tabbed entry := by simp [tabbed]
  exact (before_after tab).symm

theorem divided_legible (text : Str) : Legible (divided text) := by
  intro divided member
  obtain ⟨entry,own,rfl⟩ := List.mem_map.mp member
  obtain ⟨begins,line,_⟩ := settings_key own
  have single : 0x0A ∉ tabbed entry := by simp [tabbed,line,settings_single own]
  refine ⟨?_,before_free 0x09 _,fun inside => single (before_subset 0x09 _ inside),
    fun inside => single (after_subset 0x09 _ inside)⟩
  obtain ⟨u,rest,key,letter⟩ := letter_head begins
  have other : u ≠ 0x09 := by
    rintro rfl
    exact absurd letter (by decide)
  rw [tabbed,key,before,List.cons_append,List.takeWhile_cons_of_pos (by simpa using other)]
  exact letter

theorem divided_key {text : Str} {entry : Str × Str} (member : entry ∈ divided text) : 0x3D ∉ entry.1 := by
  obtain ⟨own,within,rfl⟩ := List.mem_map.mp member
  obtain ⟨_,_,sign⟩ := settings_key within
  intro inside
  rw [tabbed,before_cut] at inside
  exact sign (before_subset 0x09 own.1 inside)

theorem divided_file (lines : List EnvLine) : divided (fileText lines) = entries lines := by
  rw [divided,settings_file]
  conv_rhs => rw [← List.map_id (entries lines)]
  refine List.map_congr_left fun entry member => ?_
  have untabbed := (identifier_stops (entries_proper lines entry member).1).2.1
  rw [tabbed,before_stop untabbed,after_stop untabbed]
  rfl

/-! ## What awk reads of a layer -/

section Layer
variable {layer : List (Str × Str)}

theorem tabbed_single (legible : Legible layer) : ∀ line ∈ layer.map tabbed, 0x0A ∉ line := by
  intro line member
  obtain ⟨entry,within,rfl⟩ := List.mem_map.mp member
  obtain ⟨_,_,free,single⟩ := legible entry within
  simp [tabbed,free,single]

theorem tabbed_records (legible : Legible layer) : records newline (written 0x0A (layer.map tabbed)) = layer.map tabbed :=
  records_lines_written (tabbed_single legible)

theorem before_tabbed {entry : Str × Str} (untabbed : 0x09 ∉ entry.1) : before 0x09 (tabbed entry) = entry.1 :=
  before_stop untabbed

theorem after_tabbed {entry : Str × Str} (untabbed : 0x09 ∉ entry.1) : after 0x09 (tabbed entry) = entry.2 :=
  after_stop untabbed

theorem keys_tabbed (legible : Legible layer) : (layer.map tabbed).map (before 0x09) = layer.map Prod.fst := by
  rw [List.map_map]
  exact List.map_congr_left fun entry member => before_tabbed (legible entry member).2.1

theorem not_numeric {key : Str} (begins : key.head?.any isLetter = true) : looksNumeric key = false := by
  obtain ⟨u,rest,rfl,letter⟩ := letter_head begins
  have plus : u ≠ 0x2B := by rintro rfl; exact absurd letter (by decide)
  have minus : u ≠ 0x2D := by rintro rfl; exact absurd letter (by decide)
  have point : u ≠ 0x2E := by rintro rfl; exact absurd letter (by decide)
  have digit : isDigit u = false := by
    simp only [isLetter,Bool.or_eq_true,Bool.and_eq_true,decide_eq_true_eq,beq_iff_eq,UInt16.le_iff_toNat_le,
      ← UInt16.toNat_inj] at letter
    simp only [isDigit,Bool.and_eq_false_iff,decide_eq_false_iff_not,UInt16.le_iff_toNat_le]
    simp only [UInt16.reduceToNat] at *
    omega
  simp [looksNumeric,signed,plus,minus,digit,fractionPart,point]

/-- awk compares a key as a string. -/
theorem equal_key {key : Str} (begins : key.head?.any isLetter = true) (k : Str) : equal key k = decide (key = k) := by
  simp [equal,strnum,not_numeric begins]

theorem captured_ended {s : Str} (ended : ∀ u ∈ s.getLast?, u ≠ 0x0A) : captured (s ++ str "\n") = s := by
  have stop : str "\n" = [0x0A] := by decide
  rw [captured,stop,List.reverse_append,List.reverse_singleton,List.singleton_append,
    List.dropWhile_cons_of_pos (by decide)]
  rw [← List.head?_reverse] at ended
  cases reversed : s.reverse with
  | nil => simpa using reversed.symm
  | cons u rest =>
    have other := ended u (by simp [reversed])
    rw [List.dropWhile_cons_of_neg (by simp [newline,other]),← reversed,List.reverse_reverse]

theorem captured_line {v : Str} (single : 0x0A ∉ v) : captured (v ++ str "\n") = v := by
  refine captured_ended fun u member same => single ?_
  rw [← same]
  exact List.mem_of_getLast? member

theorem customGet_layer (legible : Legible layer) (k : Str) :
    customGet k (written 0x0A (layer.map tabbed)) = last layer k := by
  have hits : ((layer.map tabbed).filter fun line => equal (before 0x09 line) k) =
      (layer.filter fun entry => entry.1 = k).map tabbed := by
    rw [List.filter_map]
    congr 1
    refine List.filter_congr fun entry member => ?_
    rw [Function.comp_apply,before_tabbed (legible entry member).2.1,equal_key (legible entry member).1]
  rw [customGet,tabbed_records legible]
  simp only [hits,List.getLast?_map,List.getLast?_filter,last,Option.map_map]
  refine Option.map_congr fun entry found => ?_
  have key : entry.1 = k := by simpa using List.find?_some found
  have member : entry ∈ layer := List.mem_reverse.mp (List.mem_of_find?_eq_some found)
  subst key
  simp [tabbed,captured_line (legible entry member).2.2.2]

end Layer

/-! ## What is known of the presets -/

def presetKeys (presets : Presets) : List Str := presets.defaults.flatMap fun text => (settings text).map Prod.fst

def Presets.Named (presets : Presets) : Prop :=
  ∀ text ∈ presets.defaults, ∀ entry ∈ settings text, isIdentifier entry.1 = true

theorem within_iff (part text : Str) : within part text = true ↔ part <:+: text := by
  simp [within,List.infix_iff_prefix_suffix,and_comm]

theorem captured_written {lines : List Str} (single : ∀ line ∈ lines, 0x0A ∉ line) (filled : ∀ line ∈ lines, line ≠ [])
    (some : lines ≠ []) : captured (written 0x0A lines) ++ [0x0A] = written 0x0A lines := by
  obtain ⟨earlier,final,rfl⟩ := List.eq_nil_or_concat lines |>.resolve_left some
  rw [List.concat_eq_append] at *
  have stop : str "\n" = [0x0A] := by decide
  have whole : written 0x0A (earlier ++ [final]) = (written 0x0A earlier ++ final) ++ str "\n" := by
    simp [written,stop]
  rw [whole,captured_ended,stop]
  intro u member same
  have own : final ≠ [] := filled final (by simp)
  rw [List.getLast?_append_of_ne_nil _ own] at member
  exact single final (by simp) (same ▸ List.mem_of_getLast? member)

theorem allPresetKeys_eq {presets : Presets} (named : presets.Named) :
    allPresetKeys presets = written 0x0A (sorted (presetKeys presets)).dedup := by
  have keys (text : Str) (member : text ∈ presets.defaults) :
      (records newline (parseEnvfile text)).map (before 0x09) = (settings text).map Prod.fst := by
    have proper : Proper (settings text) := fun entry own => ⟨named text member entry own,settings_single own⟩
    rw [parseEnvfile,tabbed_records proper.legible,keys_tabbed proper.legible]
  rw [allPresetKeys,presetKeys,List.flatMap_congr keys]

theorem presetKeys_named {presets : Presets} (named : presets.Named) {k : Str} (member : k ∈ presetKeys presets) :
    isIdentifier k = true := by
  obtain ⟨text,within,inside⟩ := List.mem_flatMap.mp member
  obtain ⟨entry,own,rfl⟩ := List.mem_map.mp inside
  exact named text within entry own

theorem listed_iff {presets : Presets} (named : presets.Named) {k : Str} (filled : k ≠ []) (own : 0x0A ∉ k) :
    listed k (allPresetKeys presets) = true ↔ k ∈ presetKeys presets := by
  have known (key : Str) (member : key ∈ (sorted (presetKeys presets)).dedup) : isIdentifier key = true :=
    presetKeys_named named (by simpa [sorted] using member)
  have single (key : Str) (member : key ∈ (sorted (presetKeys presets)).dedup) : 0x0A ∉ key :=
    (identifier_stops (known key member)).1
  have free := single_free own
  rw [listed,within_iff,allPresetKeys_eq named]
  by_cases none : (sorted (presetKeys presets)).dedup = []
  · have missing : k ∉ presetKeys presets := by
      intro member
      have inside : k ∈ (sorted (presetKeys presets)).dedup := by simpa [sorted] using member
      simp [none] at inside
    have empty : 0x0A::captured (written 0x0A (sorted (presetKeys presets)).dedup) ++ [0x0A] = 0x0A::written 0x0A [[]] := by
      rw [none]
      rfl
    rw [empty,enclosed_iff (by decide) (by simp) free filled]
    simp [missing,filled]
  · have whole : 0x0A::captured (written 0x0A (sorted (presetKeys presets)).dedup) ++ [0x0A] =
        0x0A::written 0x0A (sorted (presetKeys presets)).dedup := by
      rw [List.cons_append,captured_written single (fun key member => identifier_ne_nil (known key member)) none]
    rw [whole,enclosed_iff (by decide) (fun key member => single_free (single key member)) free filled]
    simp [sorted]

end FipsShield.Config
