import FipsShield.Config.Exports
import FipsShield.Config.Service

/-! The three readers of `SHIELD_PROFILES`: the dashboard (`Config::profiles`, on what `show
--porcelain` prints), the resolver (`scopes`), and `render.sh`. -/
namespace FipsShield.Config
open Text Lines Banlist

def profilesKey : Str := str "SHIELD_PROFILES"

/-! ## The dashboard -/

/-- `str::trim`. -/
def trimWhite (s : Str) : Str := (((s.dropWhile isWhite).reverse).dropWhile isWhite).reverse

/-- `str::trim_end`. -/
def trimEnd (s : Str) : Str := (s.reverse.dropWhile isWhite).reverse

def unreturned (line : Str) : Str := if line.getLast? = some 0x0D then line.dropLast else line

/-- `str::lines`: a carriage return before the end of a line belongs to the end. -/
def rustLines (text : Str) : List Str :=
  let parts := text.splitOnP newline
  parts.dropLast.map unreturned ++ parts.getLast?.toList.filter (· ≠ [])

/-- A line of `show --porcelain`, divided at its first two tabs. -/
def porcelainEntry (line : Str) : Option Report :=
  if line.contains 0x09 then
    let rest := after 0x09 line
    some ⟨before 0x09 rest,if rest.contains 0x09 then after 0x09 rest else [],before 0x09 line⟩
  else none

/-- `Config::load`: the entries, unless the command fails. -/
def load (result : Result) : Option (List Report) :=
  if result.status = 0 then some ((rustLines result.output).filterMap porcelainEntry) else none

/-- `Config::get`. -/
def get (config : List Report) (key : Str) : Option Str := (config.find? fun entry => entry.key = key).map Report.value

/-- The items between the commas, without the white space around them. -/
def items (list : Str) : List Str := ((list.splitOnP (· == 0x2C)).map trimWhite).filter fun item => !item.isEmpty

/-- `Config::profiles`. -/
def configProfiles (config : List Report) : List Str := items ((get config profilesKey).getD (str "strfry"))

def dashboard (sh : Interpreter) (presets : Presets) (custom : Str) : Option (List Str) :=
  (load (invoke sh presets (.shows true) [] custom)).map configProfiles

/-! ## The renderer -/

/-- `render.sh` up to its templates, in a bash and a directory of its own: the profiles whose
directory there is. -/
def renderProfiles (sh bash : Interpreter) (there : Str → Bool) (presets : Presets) (ambient : Environment)
    (custom : Str) : Except Str (List Str) := do
  let resolved ← resolve sh presets true custom
  let env ← evaluate bash ambient (captured resolved)
  let given := (env.lookup profilesKey).getD []
  let list := if given = [] then str "strfry" else given
  let profiles := listWords bash list
  profiles.forM fun profile =>
    if there profile then .ok () else .error (str "error: no such profile: " ++ profile ++ str "\n")
  return profiles

/-- An env file of `SHIELD_` keys, and an environment that has none. -/
structure Deployment where
  lines : List EnvLine
  ambient : Environment
  shield : ∀ entry ∈ entries lines, shieldKey entry.1 = true
  unset : ∀ k ∈ ambient, shieldKey k = false

def Deployment.custom (deployment : Deployment) : Str := parseEnvfile (fileText deployment.lines)

/-! ## Where the readers agree -/

/-- Nothing that an `echo` takes for an escape or an option, no pattern, no two names between two
commas, and after the first tab, which is not right after a name, none at all. -/
structure Tidy (list : Str) : Prop where
  spoken : Spoken list
  plain : list.any isPattern = false
  single : ∀ piece ∈ list.splitOnP (· == 0x2C), (fields isBlank piece).length ≤ 1
  last : ∀ front rest, list = front ++ 0x09::rest → 0x09 ∉ front →
    (∀ u ∈ front.getLast?, isSeparator u = true) ∧ ∀ u ∈ rest, divides u = true

/-! ## Items -/

section Items
variable {list : Str}

theorem blank_white {u : UInt16} (gap : isBlank u = true) : isWhite u = true := by
  simp only [isBlank,Bool.or_eq_true,beq_iff_eq] at gap
  rcases gap with (rfl | rfl) | rfl <;> decide

theorem trimWhite_nil {s : Str} (white : ∀ u ∈ s, isWhite u = true) : trimWhite s = [] := by
  have none : s.dropWhile isWhite = [] := List.dropWhile_eq_nil_iff.mpr white
  rw [trimWhite,none]
  rfl

theorem dropWhile_black {s : Str} (first : ∀ u ∈ s.head?, isWhite u = false) : s.dropWhile isWhite = s := by
  cases s with
  | nil => rfl
  | cons u rest => exact List.dropWhile_cons_of_neg (by simp [first u rfl])

theorem trimEnd_black {s : Str} (last : ∀ u ∈ s.getLast?, isWhite u = false) : trimEnd s = s := by
  have first : ∀ u ∈ s.reverse.head?, isWhite u = false := by rwa [List.head?_reverse]
  rw [trimEnd,dropWhile_black first,List.reverse_reverse]

theorem trimWhite_inner {a w b : Str} (left : ∀ u ∈ a, isWhite u = true) (right : ∀ u ∈ b, isWhite u = true) (filled : w ≠ [])
    (first : ∀ u ∈ w.head?, isWhite u = false) (last : ∀ u ∈ w.getLast?, isWhite u = false) : trimWhite (a ++ w ++ b) = w := by
  have front : (a ++ w ++ b).dropWhile isWhite = w ++ b := by
    rw [List.append_assoc,List.dropWhile_append_of_pos left]
    exact dropWhile_black (by rwa [List.head?_append_of_ne_nil _ filled])
  have right' : ∀ v ∈ b.reverse, isWhite v = true := fun v member => right v (List.mem_reverse.mp member)
  have back : (w ++ b).reverse.dropWhile isWhite = w.reverse := by
    rw [List.reverse_append,List.dropWhile_append_of_pos right']
    exact dropWhile_black (by rwa [List.head?_reverse])
  rw [trimWhite,front,back,List.reverse_reverse]

theorem trimWhite_between {a w b : Str} (left : ∀ u ∈ a, isWhite u = true) (right : ∀ u ∈ b, isWhite u = true)
    (free : ∀ u ∈ w, isWhite u = false) (filled : w ≠ []) : trimWhite (a ++ w ++ b) = w :=
  trimWhite_inner left right filled (fun u member => free u (List.mem_of_head? member))
    fun u member => free u (List.mem_of_getLast? member)

theorem mem_trimWhite {s : Str} {u : UInt16} (member : u ∈ s) (black : isWhite u = false) : u ∈ trimWhite s := by
  have kept {s : Str} (member : u ∈ s) : u ∈ s.dropWhile isWhite := by
    rw [← @List.takeWhile_append_dropWhile _ isWhite s] at member
    refine (List.mem_append.mp member).resolve_left fun inside => ?_
    have white := List.all_eq_true.mp List.all_takeWhile u inside
    rw [black] at white
    cases white
  exact List.mem_reverse.mpr (kept (List.mem_reverse.mpr (kept member)))

theorem trimWhite_head {s : Str} {u : UInt16} (head : s.head? = some u) (black : isWhite u = false) :
    (trimWhite s).head? = some u := by
  obtain ⟨rest,rfl⟩ := List.head?_eq_some_iff.mp head
  have first : ∀ v ∈ (u::rest).head?, isWhite v = false := by
    rintro v ⟨⟩
    exact black
  have kept := mem_trimWhite (List.mem_cons_self : u ∈ u::rest) black
  have front : trimWhite (u::rest) <+: u::rest := by
    rw [trimWhite,dropWhile_black first]
    exact List.reverse_suffix.mp (by rw [List.reverse_reverse]; exact List.dropWhile_suffix _)
  cases own : trimWhite (u::rest) with
  | nil =>
    rw [own] at kept
    cases kept
  | cons v later =>
    rw [own] at front
    rw [List.head?_cons,(List.cons_prefix_cons.mp front).1]

theorem mem_items {u : UInt16} (member : u ∈ list) (black : isWhite u = false) (other : u ≠ 0x2C) :
    ∃ item ∈ items list, u ∈ item := by
  obtain ⟨piece,own,inside⟩ := @mem_fields _ (· == 0x2C) list u member (by simpa using other)
  have kept := mem_trimWhite inside black
  refine ⟨trimWhite piece,List.mem_filter.mpr ⟨List.mem_map_of_mem (List.mem_of_mem_filter own),?_⟩,kept⟩
  simpa using List.ne_nil_of_mem kept

theorem fields_divides (list : Str) : fields divides list = (list.splitOnP (· == 0x2C)).flatMap (fields isBlank) :=
  fields_or (· == 0x2C) isBlank list

/-- An item is the only name between two commas, where none has white space. -/
theorem trimWhite_piece {piece : Str} (free : ∀ name ∈ fields isBlank piece, ∀ u ∈ name, isWhite u = false) :
    (trimWhite piece = [] ↔ fields isBlank piece = []) ∧
      ∀ name, fields isBlank piece = [name] → trimWhite piece = name := by
  refine ⟨⟨fun none => ?_,fun none => ?_⟩,fun name one => ?_⟩
  · by_contra some
    obtain ⟨name,others,split⟩ := List.exists_cons_of_ne_nil some
    have own : name ∈ fields isBlank piece := split ▸ List.mem_cons_self
    obtain ⟨u,rest,filled⟩ := List.exists_cons_of_ne_nil (field_filled own)
    have member : u ∈ name := filled ▸ List.mem_cons_self
    have kept := mem_trimWhite (fields_subset own member) (free name own u member)
    rw [none] at kept
    cases kept
  · exact trimWhite_nil fun u member => blank_white (fields_nil.mp none u member)
  · obtain ⟨a,b,rfl,left,right⟩ := fields_single one
    have own : name ∈ fields isBlank (a ++ name ++ b) := one ▸ List.mem_singleton_self name
    exact trimWhite_between (fun u member => blank_white (left u member)) (fun u member => blank_white (right u member))
      (free name own) (field_filled own)

theorem items_iff (free : ∀ name ∈ fields divides list, ∀ u ∈ name, isWhite u = false) :
    items list = fields divides list ↔ ∀ piece ∈ list.splitOnP (· == 0x2C), (fields isBlank piece).length ≤ 1 := by
  have each : items list = (list.splitOnP (· == 0x2C)).flatMap fun piece =>
      if trimWhite piece = [] then [] else [trimWhite piece] := by
    rw [items]
    induction list.splitOnP (· == 0x2C) with
    | nil => rfl
    | cons piece rest ih =>
      rw [List.map_cons,List.flatMap_cons,← ih]
      split_ifs with none <;> simp [none]
  have inner : ∀ piece ∈ list.splitOnP (· == 0x2C), ∀ name ∈ fields isBlank piece, ∀ u ∈ name, isWhite u = false := by
    intro piece own name member
    refine free name ?_
    rw [fields_divides]
    exact List.mem_flatMap.mpr ⟨piece,own,member⟩
  rw [each,fields_divides]
  constructor
  · intro same piece own
    have least : ∀ piece ∈ list.splitOnP (· == 0x2C),
        (if trimWhite piece = [] then [] else [trimWhite piece]).length ≤ (fields isBlank piece).length := by
      intro piece own
      split_ifs with none
      · exact Nat.zero_le _
      · exact List.length_pos_iff.mpr fun empty => none ((trimWhite_piece (inner piece own)).1.mpr empty)
    rw [← flatMap_lengths least same piece own]
    split_ifs <;> simp
  · intro few
    refine List.flatMap_congr fun piece own => ?_
    obtain ⟨empty,alone⟩ := trimWhite_piece (inner piece own)
    cases found : fields isBlank piece with
    | nil => rw [if_pos (empty.mpr found)]
    | cons name rest =>
      have size := few piece own
      rw [found,List.length_cons] at size
      have one : rest = [] := List.eq_nil_of_length_eq_zero (by omega)
      subst one
      have some : trimWhite piece ≠ [] := fun none => by
        rw [empty.mp none] at found
        cases found
      rw [if_neg some,alone name found]

end Items

/-! ## Names -/

section Names
variable {list : Str} {directory : Str → Bool}

/-- Without tabs and ends of lines the resolver and the shell divide at the same units. -/
theorem names_fields (single : 0x0A ∉ list) (untabbed : 0x09 ∉ list) :
    list.splitOnP isSeparator = list.splitOnP divides := by
  induction list with
  | nil => rfl
  | cons u rest ih =>
    have line : (u == 0x0A) = false := beq_eq_false_iff_ne.mpr fun same => single (same ▸ List.mem_cons_self)
    have tab : (u == 0x09) = false := beq_eq_false_iff_ne.mpr fun same => untabbed (same ▸ List.mem_cons_self)
    have same : isSeparator u = divides u := by
      rw [isSeparator,divides,isBlank,line,tab,Bool.or_false,Bool.or_false]
    rw [List.splitOnP_cons_eq_if_modifyHead,List.splitOnP_cons_eq_if_modifyHead,same,
      ih (fun member => single (List.mem_cons_of_mem u member)) fun member => untabbed (List.mem_cons_of_mem u member)]

/-- The names up to the first that is no directory are the words exactly where all words come
before the first tab, and not right before it. -/
theorem takeWhile_names_iff (single : 0x0A ∉ list) (untabbed : ∀ name, directory name = true → 0x09 ∉ name)
    (there : ∀ word ∈ fields divides list, directory word = true) :
    (names list).takeWhile directory = fields divides list ↔
      ∀ front rest, list = front ++ 0x09::rest → 0x09 ∉ front →
        (∀ u ∈ front.getLast?, isSeparator u = true) ∧ ∀ u ∈ rest, divides u = true := by
  by_cases tab : 0x09 ∈ list
  · obtain ⟨front,rest,rfl,free⟩ := List.eq_append_cons_of_mem tab
    have own : 0x0A ∉ front := fun member => single (List.mem_append_left _ member)
    obtain ⟨earlier,last,first,later,split,split',whole⟩ := @splitOnP_cut _ isSeparator front (0x09::rest)
    have starts : ∃ more, first = 0x09::more := by
      rw [List.splitOnP_cons_eq_if_modifyHead,if_neg (by decide)] at split'
      obtain ⟨part,parts,other⟩ := List.exists_cons_of_ne_nil (List.splitOnP_ne_nil isSeparator rest)
      rw [other] at split'
      exact ⟨part,(List.cons.inj split').1.symm⟩
    obtain ⟨more,rfl⟩ := starts
    have words : fields divides (front ++ 0x09::rest) =
        earlier.filter (fun name => !name.isEmpty) ++ [last].filter (fun name => !name.isEmpty) ++ fields divides rest := by
      rw [fields_append_cons front rest (by decide),fields,← names_fields own free,split,List.filter_append]
    have read : (names (front ++ 0x09::rest)).takeWhile directory = earlier.filter fun name => !name.isEmpty := by
      have stop : directory (last ++ 0x09::more) = false := by
        by_contra found
        exact untabbed _ (by simpa using found) (by simp)
      have before : ∀ name ∈ earlier.filter (fun name => !name.isEmpty), directory name = true := by
        intro name member
        refine there name ?_
        rw [words,List.append_assoc]
        exact List.mem_append_left _ member
      have filled : ((last ++ 0x09::more)::later).filter (fun name => !name.isEmpty) =
          (last ++ 0x09::more)::later.filter fun name => !name.isEmpty := List.filter_cons_of_pos (by simp)
      rw [names,fields,whole,List.filter_append,filled,List.takeWhile_append_of_pos before,
        List.takeWhile_cons_of_neg (by simp [stop]),List.append_nil]
    have unique : (∀ front' rest', front ++ 0x09::rest = front' ++ 0x09::rest' → 0x09 ∉ front' →
        (∀ u ∈ front'.getLast?, isSeparator u = true) ∧ ∀ u ∈ rest', divides u = true) ↔
        (∀ u ∈ front.getLast?, isSeparator u = true) ∧ ∀ u ∈ rest, divides u = true := by
      refine ⟨fun all => all front rest rfl free,fun own front' rest' same free' => ?_⟩
      obtain ⟨rfl,rfl⟩ := split_unique free free' same
      exact own
    rw [unique,read,words,List.append_assoc,List.self_eq_append_right,List.append_eq_nil_iff,fields_nil,← splitOnP_last split]
    refine and_congr_left fun _ => ?_
    cases last <;> simp
  · have same : names list = fields divides list := by rw [names,fields,names_fields single tab,fields]
    have none : ∀ front rest, list ≠ front ++ 0x09::rest := by
      rintro front rest rfl
      exact tab (by simp)
    rw [same,List.takeWhile_eq_self_iff.mpr there]
    exact iff_of_true rfl fun front rest whole => absurd whole (none front rest)

end Names

/-! ## The three readers -/

section Readers
variable {sh : Interpreter} {tree : Tree} {deployment : Deployment}

theorem unreturned_append (front value : Str) : unreturned (front ++ 0x09::value) = front ++ 0x09::unreturned value := by
  rcases List.eq_nil_or_concat value with rfl | ⟨earlier,u,rfl⟩
  · simp [unreturned]
  · rw [List.concat_eq_append]
    have split : front ++ 0x09::(earlier ++ [u]) = (front ++ 0x09::earlier) ++ [u] := by simp
    rw [split,unreturned,unreturned,List.getLast?_concat,List.getLast?_concat]
    split_ifs
    · rw [List.dropLast_concat,List.dropLast_concat]
    · simp

theorem porcelainEntry_row {report : Report} (whole : report.Whole) (label : 0x09 ∉ report.source) :
    porcelainEntry (unreturned ((Request.shows true).row report)) =
      some ⟨report.key,unreturned report.value,report.source⟩ := by
  have row : (Request.shows true).row report = (report.source ++ 0x09::report.key) ++ 0x09::report.value := by
    simp [Request.row]
  have line : (report.source ++ 0x09::report.key) ++ 0x09::unreturned report.value =
      report.source ++ 0x09::(report.key ++ 0x09::unreturned report.value) := by simp
  rw [row,unreturned_append,line,porcelainEntry,if_pos (by simp),before_stop label,after_stop label]
  simp only [before_stop whole.untabbed,after_stop whole.untabbed]
  rw [if_pos (by simp)]

theorem rustLines_written {lines : List Str} (single : ∀ line ∈ lines, 0x0A ∉ line) :
    rustLines (written 0x0A lines) = lines.map unreturned := by
  rw [rustLines,splitOnP_written (by decide) fun line member => single_free (single line member)]
  simp

/-- What the dashboard loads are the reports, without a carriage return at the end of a value. -/
theorem load_reports {custom : Str} (valid : validate sh tree.toPresets custom = .ok ()) :
    load (invoke sh tree.toPresets (.shows true) [] custom) =
      some ((reports sh tree.toPresets custom).map fun report => ⟨report.key,unreturned report.value,report.source⟩) := by
  have all : served sh tree.toPresets [] custom = reports sh tree.toPresets custom := by
    rw [served,filterService,if_pos rfl,validated_records valid,parsed_reports valid (List.Subset.refl _)]
  have output : print sh tree.toPresets (.shows true) [] custom =
      written 0x0A ((reports sh tree.toPresets custom).map (Request.shows true).row) := by
    rw [← all]
    rfl
  have single : ∀ line ∈ (reports sh tree.toPresets custom).map (Request.shows true).row, 0x0A ∉ line := by
    intro line member
    obtain ⟨report,own,rfl⟩ := List.mem_map.mp member
    exact row_single (reports_whole report own) _
  rw [load,invoke_valid valid,if_pos rfl]
  simp only [output,rustLines_written single,List.map_map,List.filterMap_map,Option.some_inj]
  rw [← List.filterMap_eq_map]
  exact List.filterMap_congr fun report own =>
    porcelainEntry_row (reports_whole report own) (reports_source valid report own)

theorem custom_divided (deployment : Deployment) : divided (fileText deployment.lines) = entries deployment.lines :=
  divided_file deployment.lines

theorem report_profiles {report : Report} (member : report ∈ reports sh tree.toPresets deployment.custom)
    (own : report.key = profilesKey) : last (entries deployment.lines) profilesKey = some report.value := by
  rcases report_cases member with ⟨_,other⟩ | ⟨entry,within,key,value⟩
  · exact absurd own other
  · rw [custom_divided] at within value
    rw [← key,own] at value
    have set : (last (entries deployment.lines) profilesKey).isSome :=
      last_isSome.mpr (List.mem_map.mpr ⟨entry,within,key.symm.trans own⟩)
    obtain ⟨v,found⟩ := Option.isSome_iff_exists.mp set
    rw [value,found,Option.getD_some]

theorem profiles_reported {v : Str} (set : last (entries deployment.lines) profilesKey = some v) :
    ∃ report ∈ reports sh tree.toPresets deployment.custom, report.key = profilesKey := by
  have unknown : profilesKey ∉ presetKeys tree.toPresets := by
    intro known
    obtain ⟨text,within,inside⟩ := List.mem_flatMap.mp known
    obtain ⟨entry,own,key⟩ := List.mem_map.mp inside
    obtain ⟨scope,held⟩ := tree.files text within
    exact (tree.named scope _ text held entry own).2 key
  have own : (profilesKey,v) ∈ (divided (fileText deployment.lines)).filter fun entry =>
      !(presetKeys tree.toPresets).contains entry.1 := by
    rw [custom_divided]
    exact List.mem_filter.mpr ⟨last_mem set,by simpa using unknown⟩
  refine ⟨⟨profilesKey,(last (divided (fileText deployment.lines)) profilesKey).getD [],str "custom"⟩,
    List.mem_append_right _ ?_,rfl⟩
  rw [Deployment.custom,extraReports_text]
  exact List.mem_map_of_mem own

theorem dashboard_items (valid : validate sh tree.toPresets deployment.custom = .ok ()) :
    dashboard sh tree.toPresets deployment.custom =
      some (items (((last (entries deployment.lines) profilesKey).map unreturned).getD (str "strfry"))) := by
  have found : get ((reports sh tree.toPresets deployment.custom).map fun report =>
        (⟨report.key,unreturned report.value,report.source⟩ : Report)) profilesKey =
      (last (entries deployment.lines) profilesKey).map unreturned := by
    rw [get,List.find?_map,Option.map_map]
    cases first : (reports sh tree.toPresets deployment.custom).find? ((fun entry : Report => entry.key = profilesKey) ∘
        fun report => (⟨report.key,unreturned report.value,report.source⟩ : Report)) with
    | none =>
      cases set : last (entries deployment.lines) profilesKey with
      | none => rfl
      | some v =>
        obtain ⟨report,own,key⟩ := @profiles_reported sh tree deployment v set
        have missing := List.find?_eq_none.mp first report own
        simp [key] at missing
    | some report =>
      have own := List.mem_of_find?_eq_some first
      have key : report.key = profilesKey := by simpa using List.find?_some first
      rw [report_profiles own key]
      rfl
  rw [dashboard,load_reports valid,Option.map_some,configProfiles,found]

theorem profiles_deployment (deployment : Deployment) : profiles deployment.custom = profilesOf (entries deployment.lines) := by
  rw [Deployment.custom,profiles_text,custom_divided]

/-- The list that is read is the value, or the default where that is empty or not set. -/
theorem profilesOf_cases (layer : List (Str × Str)) : (last layer profilesKey = none ∨ last layer profilesKey = some []) ∧
      profilesOf layer = str "strfry" ∨ ∃ v, last layer profilesKey = some v ∧ v ≠ [] ∧ profilesOf layer = v := by
  have whole : profilesOf layer = if (last layer profilesKey).getD (str "strfry") = [] then str "strfry"
    else (last layer profilesKey).getD (str "strfry") := rfl
  rw [whole]
  cases last layer profilesKey with
  | none => exact Or.inl ⟨Or.inl rfl,by split_ifs <;> rfl⟩
  | some v =>
    by_cases empty : v = []
    · exact Or.inl ⟨Or.inr (by rw [empty]),by simp [empty]⟩
    · exact Or.inr ⟨v,rfl,empty,by simp [empty]⟩

end Readers

section Renderer
variable {sh bash : Interpreter} {tree : ShieldTree} {deployment : Deployment}

theorem deployment_shield : ∀ report ∈ reports sh tree.toPresets deployment.custom,
    isIdentifier report.key = true ∧ shieldKey report.key = true := by
  intro report member
  rcases report_shield member with shield | own
  · exact shield
  · rw [custom_divided] at own
    have entry := last_mem own
    exact ⟨(entries_proper deployment.lines _ entry).1,deployment.shield _ entry⟩

/-- Any shell takes every line that is printed of a deployment. -/
theorem evaluate_deployment (valid : validate sh tree.toPresets deployment.custom = .ok ()) {out : Str}
    (resolved : resolve sh tree.toPresets true deployment.custom = .ok out) :
    evaluate bash deployment.ambient (captured out) = .ok (assignAll deployment.ambient
      ((reports sh tree.toPresets deployment.custom).map fun report => (report.key,report.value))) := by
  rw [resolve_ok valid] at resolved
  obtain rfl := Except.ok.inj resolved
  have assigned := @evaluate_shield bash
    ((reports sh tree.toPresets deployment.custom).map fun report => (report.key,report.value))
    (List.forall_mem_map.mpr deployment_shield) deployment.ambient
  rwa [List.map_map] at assigned

theorem deployment_profiles : (assignAll deployment.ambient
    ((reports sh tree.toPresets deployment.custom).map fun report => (report.key,report.value))).lookup profilesKey =
      last (entries deployment.lines) profilesKey := by
  have unset : deployment.ambient.lookup profilesKey = none := by
    rw [AList.lookup_eq_none]
    intro inside
    have shield : shieldKey profilesKey = true := by decide
    rw [deployment.unset _ inside] at shield
    cases shield
  rw [assignAll,lookup_foldl,unset,Option.or_none]
  cases set : last (entries deployment.lines) profilesKey with
  | none =>
    by_contra some
    obtain ⟨v,found⟩ := Option.ne_none_iff_exists'.mp some
    obtain ⟨report,own,same⟩ := List.mem_map.mp (last_mem found)
    have held := report_profiles own (congrArg Prod.fst same)
    rw [set] at held
    cases held
  | some v =>
    obtain ⟨report,own,key⟩ := @profiles_reported sh tree.toTree deployment v set
    refine last_only (List.mem_map.mpr ⟨report,own,?_⟩) fun w inside => ?_
    · have held := report_profiles own key
      rw [set] at held
      rw [key,Option.some.inj held]
    · obtain ⟨report',own',same⟩ := List.mem_map.mp inside
      have held := report_profiles own' (congrArg Prod.fst same)
      rw [set] at held
      exact (congrArg Prod.snd same).symm.trans (Option.some.inj held).symm

theorem render_iff (valid : validate sh tree.toPresets deployment.custom = .ok ()) {there : Str → Bool}
    {rendered : List Str} : renderProfiles sh bash there tree.toPresets deployment.ambient deployment.custom = .ok rendered ↔
      listWords bash (profilesOf (entries deployment.lines)) = rendered ∧ ∀ name ∈ rendered, there name = true := by
  have resolved := resolve_ok valid true
  have list : (if (last (entries deployment.lines) profilesKey).getD [] = [] then str "strfry"
      else (last (entries deployment.lines) profilesKey).getD []) = profilesOf (entries deployment.lines) := by
    rcases profilesOf_cases (entries deployment.lines) with ⟨unset | empty,same⟩ | ⟨v,set,filled,same⟩
    · simp [unset,same]
    · simp [empty,same]
    · simp [set,filled,same]
  rw [renderProfiles,resolved]
  simp only [bind,Except.bind,evaluate_deployment valid resolved,deployment_profiles,list]
  cases checked : (listWords bash (profilesOf (entries deployment.lines))).forM fun profile =>
      if there profile then (.ok () : Except Str Unit) else .error (str "error: no such profile: " ++ profile ++ str "\n") with
  | error message =>
    refine iff_of_false (by simp) ?_
    rintro ⟨rfl,all⟩
    rw [forM_iff.mpr fun profile own => if_pos (all profile own)] at checked
    cases checked
  | ok _ =>
    have all := forM_iff.mp checked
    simp only [pure,Except.pure,Except.ok.injEq]
    refine ⟨?_,fun same => same.1⟩
    rintro rfl
    refine ⟨rfl,fun name own => ?_⟩
    by_contra missing
    have one := all name own
    rw [if_neg missing] at one
    cases one

section Plain
variable (valid : validate sh tree.toPresets deployment.custom = .ok ())
  (spoken : Spoken (profilesOf (entries deployment.lines)))
  (plain : (profilesOf (entries deployment.lines)).any isPattern = false)
include spoken plain

theorem words_plain (sh : Interpreter) : listWords sh (profilesOf (entries deployment.lines)) =
    fields divides (profilesOf (entries deployment.lines)) := by
  have own : ∀ name ∈ fields divides (profilesOf (entries deployment.lines)), name.any isPattern = false := by
    intro name member
    rw [List.any_eq_false] at plain ⊢
    exact fun u inside => plain u (fields_subset member inside)
  have each : (fields divides (profilesOf (entries deployment.lines))).flatMap (expand sh) =
      (fields divides (profilesOf (entries deployment.lines))).flatMap fun name => [name] :=
    List.flatMap_congr fun name member => expand_plain (own name member)
  rw [listWords_spoken spoken,each,List.flatMap_singleton']

include valid

theorem words_directory : ∀ name ∈ fields divides (profilesOf (entries deployment.lines)), tree.directory name = true := by
  intro name member
  have validated := validate_iff.mp valid
  rw [profiles_deployment,words_plain spoken plain] at validated
  exact (validated name (List.mem_cons_of_mem _ member)).1

theorem words_black : ∀ name ∈ fields divides (profilesOf (entries deployment.lines)), ∀ u ∈ name, isWhite u = false :=
  fun name member u inside => (tree.plain name (words_directory valid spoken plain name member) u inside).1

/-- What the dashboard takes apart is the list that is read, unless the value is empty. -/
theorem shown_profiles (filled : last (entries deployment.lines) profilesKey ≠ some []) :
    ((last (entries deployment.lines) profilesKey).map unreturned).getD (str "strfry") = profilesOf (entries deployment.lines) := by
  rcases profilesOf_cases (entries deployment.lines) with ⟨unset | empty,same⟩ | ⟨v,set,_,same⟩
  · rw [unset,same]
    rfl
  · exact absurd empty filled
  · have kept : unreturned v = v := by
      rw [unreturned]
      split_ifs with returned
      · have member : (0x0D : UInt16) ∈ profilesOf (entries deployment.lines) := same ▸ List.mem_of_getLast? returned
        obtain ⟨name,own,inside⟩ := @mem_fields _ divides _ _ member (by decide)
        exact absurd (words_black valid spoken plain name own _ inside) (by decide)
      · rfl
    rw [set,Option.map_some,Option.getD_some,kept,same]

end Plain

/-- What is no white space and no comma, and not in the default, stands in one of the items that
the dashboard shows. -/
theorem black_item {u : UInt16} (member : u ∈ profilesOf (entries deployment.lines)) (black : isWhite u = false)
    (comma : u ≠ 0x2C) (other : u ∉ str "strfry") :
    ∃ item ∈ items (((last (entries deployment.lines) profilesKey).map unreturned).getD (str "strfry")), u ∈ item := by
  have line : u ≠ 0x0D := by
    rintro rfl
    exact absurd black (by decide)
  rcases profilesOf_cases (entries deployment.lines) with ⟨_,same⟩ | ⟨v,set,_,same⟩
  · exact absurd (same ▸ member) other
  · rw [same] at member
    refine mem_items ?_ black comma
    rw [set,Option.map_some,Option.getD_some,unreturned]
    split_ifs with returned
    · rw [List.getLast?_eq_some_iff] at returned
      obtain ⟨front,rfl⟩ := returned
      rw [List.dropLast_concat]
      exact (List.mem_append.mp member).resolve_right fun inside => line (List.mem_singleton.mp inside)
    · exact member

/-- A list whose items come as they are out of every `echo` does so too. -/
theorem items_spoken (each : ∀ item ∈ items (((last (entries deployment.lines) profilesKey).map unreturned).getD (str "strfry")),
    Spoken item) : Spoken (profilesOf (entries deployment.lines)) := by
  refine ⟨fun inside => ?_,fun dashed => ?_⟩
  · obtain ⟨item,own,within⟩ := black_item inside (by decide) (by decide) (by decide)
    exact (each item own).unescaped within
  · rcases profilesOf_cases (entries deployment.lines) with ⟨_,same⟩ | ⟨v,set,_,same⟩
    · rw [same] at dashed
      exact absurd dashed (by decide)
    · obtain ⟨rest,rfl⟩ := List.head?_eq_some_iff.mp (same ▸ dashed)
      have kept : ∃ later, unreturned (0x2D::rest) = 0x2D::later := by
        rw [unreturned]
        split_ifs with returned
        · cases rest with
          | nil => exact absurd returned (by decide)
          | cons u later => exact ⟨(u::later).dropLast,rfl⟩
        · exact ⟨rest,rfl⟩
      obtain ⟨later,kept⟩ := kept
      obtain ⟨piece,own,head⟩ := @fields_head _ (· == 0x2C) 0x2D (by decide) later
      have first := trimWhite_head head (by decide)
      refine (each (trimWhite piece) ?_).undashed first
      rw [set,Option.map_some,kept,Option.getD_some]
      refine List.mem_filter.mpr ⟨List.mem_map_of_mem (List.mem_of_mem_filter own),?_⟩
      rw [Bool.not_eq_true',List.isEmpty_eq_false_iff]
      intro none
      rw [none] at first
      cases first

theorem items_plain (each : ∀ item ∈ items (((last (entries deployment.lines) profilesKey).map unreturned).getD (str "strfry")),
    ∀ u ∈ item, isPattern u = false) : (profilesOf (entries deployment.lines)).any isPattern = false := by
  rw [List.any_eq_false]
  intro u member pattern
  have black : isWhite u = false ∧ u ≠ 0x2C ∧ u ∉ str "strfry" := by
    simp only [isPattern,Bool.or_eq_true,beq_iff_eq] at pattern
    rcases pattern with (rfl | rfl) | rfl <;> decide
  obtain ⟨item,own,inside⟩ := black_item member black.1 black.2.1 black.2.2
  have other := each item own u inside
  rw [pattern] at other
  cases other

/-- The dashboard shows nothing of an empty value, of which the others read the default. -/
theorem items_filled (valid : validate sh tree.toPresets deployment.custom = .ok ())
    (spoken : Spoken (profilesOf (entries deployment.lines)))
    (plain : (profilesOf (entries deployment.lines)).any isPattern = false)
    (shows : items (((last (entries deployment.lines) profilesKey).map unreturned).getD (str "strfry")) =
      (names (profilesOf (entries deployment.lines))).takeWhile tree.directory) :
    last (entries deployment.lines) profilesKey ≠ some [] := by
  intro empty
  have list : profilesOf (entries deployment.lines) = str "strfry" := by
    rcases profilesOf_cases (entries deployment.lines) with ⟨_,same⟩ | ⟨v,set,some,_⟩
    · exact same
    · rw [empty] at set
      exact absurd (Option.some.inj set).symm some
  have default := words_directory valid spoken plain (str "strfry") (by rw [list]; decide)
  have none : items (((some []).map unreturned).getD (str "strfry")) = [] := by decide
  have one : names (str "strfry") = [str "strfry"] := by decide
  rw [empty,list,none,one,List.takeWhile_cons_of_pos default] at shows
  cases shows

/-- The three readers agree exactly where the value is not empty and tidy, and each name in it has
its templates. -/
theorem readers_agree_iff (sh bash : Interpreter) (tree : ShieldTree) (there : Str → Bool) (deployment : Deployment)
    (out : Str) (resolves : resolve sh tree.toPresets false deployment.custom = .ok out) :
    dashboard sh tree.toPresets deployment.custom = some (scopes sh tree.toPresets deployment.custom).tail ∧
        renderProfiles sh bash there tree.toPresets deployment.ambient deployment.custom =
          .ok (scopes sh tree.toPresets deployment.custom).tail ↔
      last (entries deployment.lines) profilesKey ≠ some [] ∧ Tidy (profilesOf (entries deployment.lines)) ∧
        ∀ name ∈ fields divides (profilesOf (entries deployment.lines)), there name = true := by
  have valid := (resolve_valid resolves).1
  have single : 0x0A ∉ profilesOf (entries deployment.lines) :=
    profiles_deployment deployment ▸ profiles_custom_single deployment.custom
  have tail : (scopes sh tree.toPresets deployment.custom).tail =
      (listedNames sh (profilesOf (entries deployment.lines))).takeWhile tree.directory := by
    rw [scopes_tree,profiles_deployment,List.tail_cons]
  rw [tail,dashboard_items valid,Option.some_inj,render_iff valid]
  have found (spoken : Spoken (profilesOf (entries deployment.lines)))
      (plain : (profilesOf (entries deployment.lines)).any isPattern = false) :=
    @takeWhile_names_iff _ tree.directory single (fun _ => tree.untabbed) (words_directory valid spoken plain)
  constructor
  · rintro ⟨shows,renders,exists'⟩
    have directories : ∀ item ∈ items (((last (entries deployment.lines) profilesKey).map unreturned).getD (str "strfry")),
        tree.directory item = true := by
      rw [shows]
      exact fun item own => List.mem_takeWhile_imp own
    have spoken : Spoken (profilesOf (entries deployment.lines)) :=
      items_spoken fun item own => tree.spoken item (directories item own)
    have plain : (profilesOf (entries deployment.lines)).any isPattern = false :=
      items_plain fun item own u inside => (tree.plain item (directories item own) u inside).2
    rw [listedNames_spoken spoken single] at shows renders
    have filled := items_filled valid spoken plain shows
    rw [words_plain spoken plain] at renders
    rw [shown_profiles valid spoken plain filled,← renders] at shows
    refine ⟨filled,⟨spoken,plain,(items_iff (words_black valid spoken plain)).mp shows,(found spoken plain).mp renders.symm⟩,?_⟩
    rw [renders,← listedNames_spoken spoken single]
    exact exists'
  · rintro ⟨filled,tidy,exists'⟩
    have read := (found tidy.spoken tidy.plain).mpr tidy.last
    rw [listedNames_spoken tidy.spoken single,shown_profiles valid tidy.spoken tidy.plain filled,
      words_plain tidy.spoken tidy.plain,read]
    exact ⟨(items_iff (words_black valid tidy.spoken tidy.plain)).mpr tidy.single,rfl,exists'⟩

end Renderer

/-- A deployment that sets the profiles, and nothing else. -/
def listing (list : String) : Deployment where
  lines := [envLine profilesKey (str list)]
  ambient := ∅
  shield := by
    intro entry member
    have key : entry.1 = profilesKey := by
      rw [entries,envLine] at member
      split_ifs at member
      · simp [EnvLine.entry?] at member
        rw [member]
      · simp [EnvLine.entry?] at member
    rw [key]
    decide
  unset k inside := absurd inside (AList.notMem_empty k)

/-- The directories of `profiles/`. -/
def templates (name : Str) : Bool := [str "http",str "strfry",str "tcp"].contains name

theorem readers_agree_commas :
    dashboard plainShell shippedShield.toPresets (listing "strfry, http ,tcp").custom =
        some [str "strfry",str "http",str "tcp"] ∧
      renderProfiles plainShell plainShell templates shippedShield.toPresets ∅ (listing "strfry, http ,tcp").custom =
        .ok [str "strfry",str "http",str "tcp"] := by
  have valid : validate plainShell shippedShield.toPresets (listing "strfry, http ,tcp").custom = .ok () := by
    decide +kernel
  have tail : (scopes plainShell shippedShield.toPresets (listing "strfry, http ,tcp").custom).tail =
      [str "strfry",str "http",str "tcp"] := by
    decide +kernel
  have list : profilesOf (entries (listing "strfry, http ,tcp").lines) = str "strfry, http ,tcp" := by decide +kernel
  have untabbed : (0x09 : UInt16) ∉ str "strfry, http ,tcp" := by decide
  have agree := (readers_agree_iff plainShell plainShell shippedShield templates (listing "strfry, http ,tcp") _ (resolve_ok valid false)).mpr (by
    rw [list]
    refine ⟨by decide +kernel,⟨by decide +kernel,by decide +kernel,by decide +kernel,fun front rest same _ => ?_⟩,by decide +kernel⟩
    exact absurd (by rw [same]; simp) untabbed)
  rwa [tail] at agree

/-- Of an empty list the dashboard shows nothing, where the others read the default. -/
theorem readers_differ : ¬ ∀ (sh bash : Interpreter) (tree : ShieldTree) (there : Str → Bool) (deployment : Deployment)
    (out : Str), resolve sh tree.toPresets false deployment.custom = .ok out →
    dashboard sh tree.toPresets deployment.custom = some (scopes sh tree.toPresets deployment.custom).tail ∧
      renderProfiles sh bash there tree.toPresets deployment.ambient deployment.custom =
        .ok (scopes sh tree.toPresets deployment.custom).tail := by
  intro claim
  have valid : validate plainShell shippedShield.toPresets (listing "").custom = .ok () := by decide +kernel
  obtain ⟨shows,_⟩ := claim plainShell plainShell shippedShield templates (listing "") _ (resolve_ok valid false)
  rw [dashboard_items valid] at shows
  exact absurd shows (by decide +kernel)

end FipsShield.Config
