import FipsShield.Config.Tree

/-! The commands that print a configuration, `resolve`, `show` and `diff`, of all services or of
one: their exit status, and what they print. -/
namespace FipsShield.Config
open Text Lines Banlist

/-! ## The commands -/

inductive Request where
  | resolves (shell : Bool)
  | shows (porcelain : Bool)
  | differs

/-- The status of an exit, and what was printed. -/
structure Result where
  status : Nat
  output : Str

/-- `%-ns`. -/
def padded (n : Nat) (s : Str) : Str := s ++ List.replicate (n - (fromString s).length) 0x20

def shown (v : Str) : Str := if v = [] then str "(empty)" else v

/-- The line that is printed of a key, its value and where the value is from. -/
def Request.row (request : Request) (report : Report) : Str :=
  match request with
  | .resolves shell => assignment shell (report.key,report.value)
  | .shows true => report.source ++ 0x09::report.key ++ 0x09::report.value
  | .shows false => str "  " ++ padded 34 report.key ++ 0x20::padded 26 (shown report.value) ++ 0x20::report.source
  | .differs => str "  " ++ padded 34 report.key ++ 0x20::shown report.value

/-- The parts of a line that `resolve_all` prints. -/
def parsed (line : Str) : Report :=
  ⟨before 0x09 line,beforeLast 0x09 (after 0x09 line),afterLast 0x09 (after 0x09 line)⟩

/-- The keys of a service; none where its preset cannot be read. -/
def serviceKeys (presets : Presets) (service : Str) : Str :=
  captured (written 0x0A ((records newline (((presets.file service (str "default")).map parseEnvfile).getD [])).map (before 0x09)))

/-- An unknown service ends the subshell of the filter, and the rest of the pipeline has no lines. -/
def filterService (presets : Presets) (service text : Str) : Str :=
  if service = [] then text
  else
    let keys := serviceKeys presets service
    if keys = [] then []
    else written 0x0A ((records newline text).filter fun line => (records newline keys).contains (before 0x09 line))

/-- What `$(level_for)` prints: nothing of an unknown level. -/
def shownLevel (sh : Interpreter) (custom scope : Str) : Str := (levelFor sh scope custom).toOption.getD []

def heading (sh : Interpreter) (service custom : Str) : Str :=
  (if service = [] then
    str "profiles " ++ (customGet (str "SHIELD_PROFILES") custom).getD (str "strfry") ++ str "   preset " ++
      shownLevel sh custom (str "core")
  else str "service " ++ service ++ str "   preset " ++ shownLevel sh custom service) ++
    str "\n\n  " ++ padded 34 (str "KEY") ++ 0x20::padded 26 (str "VALUE") ++ str " SOURCE\n"

def print (sh : Interpreter) (presets : Presets) (request : Request) (service custom : Str) : Str :=
  let lines := (records newline (filterService presets service (resolveAll sh presets custom))).map parsed
  match request with
  | .resolves _ | .shows true => written 0x0A (lines.map request.row)
  | .shows false => heading sh service custom ++ written 0x0A (lines.map request.row)
  | .differs =>
    let own := lines.filter fun report => report.source = str "custom"
    if own = [] then [] else
      (str "  " ++ padded 34 (str "KEY") ++ str " YOUR VALUE\n") ++ written 0x0A (own.map request.row)

/-- Only what fails before anything is printed has a status of its own. -/
def invoke (sh : Interpreter) (presets : Presets) (request : Request) (service custom : Str) : Result :=
  match validate sh presets custom with
  | .error _ => ⟨1,[]⟩
  | .ok _ => ⟨0,print sh presets request service custom⟩

/-! ## What is asked for -/

section Asked
variable (sh : Interpreter) (presets : Presets) (custom : Str)

/-- A service whose preset has keys, with a level of its own and a preset at that level. -/
def Served (service : Str) : Prop :=
  (∃ text, presets.file service (str "default") = some text ∧ divided text ≠ []) ∧ Settled sh presets custom service

/-- A level, a profile, a preset or a service that there is not. -/
def Unknown (service : Str) : Prop :=
  (∃ scope ∈ str "core"::names (profiles custom), ¬ (presets.directory scope = true ∧ Settled sh presets custom scope)) ∨
    service ≠ [] ∧ ¬ Served sh presets custom service

/-- The keys of core and of the enabled profiles, or of one of them; of `diff` those that are customised. -/
def Selected (request : Request) (service k : Str) : Prop :=
  (∃ scope ∈ str "core"::names (profiles custom), (service = [] ∨ scope = service) ∧ ∃ level text,
    levelFor sh scope custom = .ok level ∧ presets.file scope level = some text ∧ k ∈ (divided text).map Prod.fst) ∧
  match request with
  | .differs => (customGet k custom).isSome
  | _ => True

/-- What succeeds has a line of every key that is asked for, and what asks for something
unknown fails. -/
def Faithful (request : Request) (service : Str) (result : Result) : Prop :=
  (result.status = 0 → ∀ k, Selected sh presets custom request service k →
    ∃ report : Report, report.key = k ∧ request.row report ∈ records newline result.output) ∧
  (Unknown sh presets custom service → result.status ≠ 0)

end Asked

/-! ## What is printed -/

section Lines
variable {sh : Interpreter} {tree : Tree} {custom service : Str}

theorem parsed_report {report : Report} (whole : report.Whole) (label : 0x09 ∉ report.source) : parsed report.text = report := by
  have line : report.text = report.key ++ 0x09::(report.value ++ 0x09::report.source) := by simp [Report.text,tagged]
  rw [parsed,line,before_stop whole.untabbed,after_stop whole.untabbed,beforeLast_stop label,afterLast_stop label]

theorem serviceKeys_divided {text : Str} (held : tree.file service (str "default") = some text) :
    serviceKeys tree.toPresets service = captured (written 0x0A ((divided text).map Prod.fst)) := by
  have legible := divided_legible text
  rw [serviceKeys,held,Option.map_some,Option.getD_some,parseEnvfile_divided,tabbed_records legible,keys_tabbed legible]

theorem records_captured {lines : List Str} (single : ∀ line ∈ lines, 0x0A ∉ line) (filled : ∀ line ∈ lines, line ≠ []) :
    records newline (captured (written 0x0A lines)) = lines := by
  rcases List.eq_nil_or_concat lines with rfl | ⟨earlier,final,rfl⟩
  · decide
  rw [List.concat_eq_append] at *
  have whole := captured_written single filled (by simp)
  have split : written 0x0A (earlier ++ [final]) = (written 0x0A earlier ++ final) ++ [0x0A] := by simp [written]
  rw [split] at whole ⊢
  rw [List.append_cancel_right whole,records_append (by decide) fun line member => single_free (single line (by simp [member])),
    records_line (single_free (single final (by simp))),if_neg (filled final (by simp))]

/-- The lines that the filter leaves, taken apart. -/
def served (sh : Interpreter) (presets : Presets) (service custom : Str) : List Report :=
  (records newline (filterService presets service (resolveAll sh presets custom))).map parsed

theorem parsed_reports (valid : validate sh tree.toPresets custom = .ok ()) {kept : List Report}
    (own : kept ⊆ reports sh tree.toPresets custom) : (kept.map Report.text).map parsed = kept := by
  rw [List.map_map]
  conv_rhs => rw [← List.map_id kept]
  exact List.map_congr_left fun report member =>
    parsed_report (reports_whole report (own member)) (reports_source valid report (own member))

theorem served_keys (valid : validate sh tree.toPresets custom = .ok ()) {text : Str} (asked : service ≠ [])
    (held : tree.file service (str "default") = some text) (filled : divided text ≠ []) :
    served sh tree.toPresets service custom =
      (reports sh tree.toPresets custom).filter fun report => ((divided text).map Prod.fst).contains report.key := by
  have legible := divided_legible text
  have single : ∀ key ∈ (divided text).map Prod.fst, 0x0A ∉ key := by
    intro key member
    obtain ⟨entry,own,rfl⟩ := List.mem_map.mp member
    exact (legible entry own).2.2.1
  have lettered : ∀ key ∈ (divided text).map Prod.fst, key ≠ [] := by
    intro key member
    obtain ⟨entry,own,rfl⟩ := List.mem_map.mp member
    obtain ⟨u,rest,key,_⟩ := letter_head (legible entry own).1
    simp [key]
  have keys : records newline (serviceKeys tree.toPresets service) = (divided text).map Prod.fst := by
    rw [serviceKeys_divided held,records_captured single lettered]
  have some : serviceKeys tree.toPresets service ≠ [] := by
    intro none
    rw [none] at keys
    exact filled (List.map_eq_nil_iff.mp keys.symm)
  have left : ((reports sh tree.toPresets custom).map Report.text).filter (fun line =>
        ((divided text).map Prod.fst).contains (before 0x09 line)) =
      ((reports sh tree.toPresets custom).filter fun report => ((divided text).map Prod.fst).contains report.key).map Report.text := by
    rw [List.filter_map]
    congr 1
    refine List.filter_congr fun report member => ?_
    have key : before 0x09 report.text = report.key := by
      have parts := parsed_report (reports_whole report member) (reports_source valid report member)
      exact congrArg Report.key parts
    rw [Function.comp_apply,key]
  rw [served,filterService,if_neg asked]
  simp only [if_neg some,keys,validated_records valid,left]
  rw [records_lines_written,parsed_reports valid fun _ member => List.mem_of_mem_filter member]
  intro line member
  obtain ⟨report,own,rfl⟩ := List.mem_map.mp member
  exact (reports_whole report (List.mem_of_mem_filter own)).single

theorem mem_served (valid : validate sh tree.toPresets custom = .ok ())
    (known : service = [] ∨ ∃ text, tree.file service (str "default") = some text ∧ divided text ≠ []) {report : Report} :
    report ∈ served sh tree.toPresets service custom ↔ report ∈ reports sh tree.toPresets custom ∧
      (service = [] ∨ ∃ text, tree.file service (str "default") = some text ∧ report.key ∈ (divided text).map Prod.fst) := by
  by_cases none : service = []
  · rw [served,filterService,if_pos none,validated_records valid,parsed_reports valid (List.Subset.refl _)]
    simp [none]
  · obtain ⟨text,held,filled⟩ := known.resolve_left none
    rw [served_keys valid none held filled,List.mem_filter,List.contains_iff_mem,held]
    simp [none]

theorem row_single {report : Report} (whole : report.Whole) (request : Request) : 0x0A ∉ request.row report := by
  have key := whole.key
  have value := whole.value
  have source := whole.source
  have opening : (0x0A : UInt16) ∉ str "export " ∧ (0x0A : UInt16) ∉ str "='" ∧ (0x0A : UInt16) ∉ str "'" ∧
      (0x0A : UInt16) ∉ str "'\\''" ∧ (0x0A : UInt16) ∉ str "  " := by decide
  have inner : 0x0A ∉ quoted report.value := by
    intro inside
    obtain ⟨u,own,within⟩ := List.mem_flatMap.mp inside
    split_ifs at within
    · exact opening.2.2.2.1 within
    · exact value (List.mem_singleton.mp within ▸ own)
  have empty : 0x0A ∉ shown report.value := by
    rw [shown]
    split_ifs
    · decide
    · exact value
  cases request with
  | resolves shell => cases shell <;> simp [Request.row,assignment,key,value,inner,opening]
  | shows porcelain => cases porcelain <;> simp [Request.row,padded,key,value,source,empty,opening]
  | differs => simp [Request.row,padded,key,empty,opening]

theorem records_after {front : Str} (ended : front = [] ∨ front.getLast? = some 0x0A) (text : Str) :
    records newline (front ++ text) = records newline front ++ records newline text := by
  rcases ended with rfl | ended
  · rfl
  have whole : written 0x0A (records newline front) = front := by
    rcases @written_records _ newline 0x0A (fun u => by simp [newline]) front with ⟨_,same⟩ | ⟨other,_⟩
    · exact same
    · exact absurd (Or.inr ended) other
  conv_lhs => rw [← whole]
  exact records_append (by decide) (records_free front) text

theorem heading_ended (sh : Interpreter) (service custom : Str) : (heading sh service custom).getLast? = some 0x0A := by
  have last : (str " SOURCE\n").getLast? = some 0x0A := by decide
  rw [heading,List.getLast?_append,last]
  rfl

/-- The lines that have a row: those that are left, of `diff` the customised ones. -/
def rows (sh : Interpreter) (presets : Presets) (request : Request) (service custom : Str) : List Report :=
  match request with
  | .differs => (served sh presets service custom).filter fun report => report.source = str "custom"
  | _ => served sh presets service custom

theorem rows_served (sh : Interpreter) (presets : Presets) (request : Request) (service custom : Str) :
    rows sh presets request service custom ⊆ served sh presets service custom := by
  cases request with
  | differs => exact fun _ member => List.mem_of_mem_filter member
  | _ => exact List.Subset.refl _

theorem print_rows (sh : Interpreter) (presets : Presets) (request : Request) (service custom : Str) :
    ∃ front, (front = [] ∨ front.getLast? = some 0x0A) ∧ print sh presets request service custom =
      front ++ written 0x0A ((rows sh presets request service custom).map request.row) := by
  cases request with
  | resolves shell => exact ⟨[],Or.inl rfl,rfl⟩
  | shows porcelain =>
    cases porcelain with
    | true => exact ⟨[],Or.inl rfl,rfl⟩
    | false => exact ⟨heading sh service custom,Or.inr (heading_ended sh service custom),rfl⟩
  | differs =>
    by_cases none : (served sh presets service custom).filter (fun report => report.source = str "custom") = []
    · refine ⟨[],Or.inl rfl,?_⟩
      rw [rows,none]
      exact if_pos none
    · refine ⟨str "  " ++ padded 34 (str "KEY") ++ str " YOUR VALUE\n",Or.inr ?_,if_neg none⟩
      have last : (str " YOUR VALUE\n").getLast? = Option.some 0x0A := by decide
      rw [List.getLast?_append,last]
      rfl

theorem printed_row (request : Request) (whole : ∀ report ∈ served sh tree.toPresets service custom, report.Whole)
    {report : Report} (member : report ∈ rows sh tree.toPresets request service custom) :
    request.row report ∈ records newline (print sh tree.toPresets request service custom) := by
  obtain ⟨front,ended,printed⟩ := print_rows sh tree.toPresets request service custom
  rw [printed,records_after ended,records_lines_written]
  · exact List.mem_append_right _ (List.mem_map_of_mem member)
  · intro line inside
    obtain ⟨other,own,rfl⟩ := List.mem_map.mp inside
    exact row_single (whole other (rows_served _ _ _ _ _ own)) request

theorem invoke_valid (valid : validate sh tree.toPresets custom = .ok ()) (request : Request) :
    invoke sh tree.toPresets request service custom = ⟨0,print sh tree.toPresets request service custom⟩ := by
  rw [invoke,valid]

theorem invoke_error {message : Str} (error : validate sh tree.toPresets custom = .error message) (request : Request) :
    invoke sh tree.toPresets request service custom = ⟨1,[]⟩ := by
  rw [invoke,error]

theorem reported_key {scope level text k : Str} (own : scope ∈ scopes sh tree.toPresets custom)
    (found : levelFor sh scope custom = .ok level) (held : tree.file scope level = some text)
    (member : k ∈ (divided text).map Prod.fst) : ∃ report ∈ reports sh tree.toPresets custom, report.key = k ∧
      ((customGet k custom).isSome → report.source = str "custom") := by
  obtain ⟨entry,within,rfl⟩ := List.mem_map.mp member
  have whole : scopeReports sh tree.toPresets custom scope ⊆ reports sh tree.toPresets custom := fun report named =>
    List.mem_append_left _ (List.mem_flatMap.mpr ⟨scope,own,named⟩)
  rw [scopeReports,found] at whole
  simp only [held,Option.elim_some] at whole
  cases given : customGet entry.1 custom with
  | some v =>
    refine ⟨⟨entry.1,v,str "custom"⟩,whole (List.mem_map.mpr ⟨entry,within,?_⟩),rfl,fun _ => rfl⟩
    rw [given]
  | none =>
    refine ⟨⟨entry.1,entry.2,str "preset:" ++ scope ++ str "/" ++ level⟩,
      whole (List.mem_map.mpr ⟨entry,within,?_⟩),rfl,by simp⟩
    rw [given]

section Listed
variable (listed : ∀ name ∈ names (profiles custom), tree.directory name = true)
include listed

/-- The names of directories come as they are out of every `echo`. -/
theorem listed_names : listedNames sh (profiles custom) = names (profiles custom) := by
  have spoken : Spoken (profiles custom) := spoken_list (by decide) fun name own => tree.spoken name (listed name own)
  exact listedNames_spoken spoken (profiles_custom_single custom)

theorem scopes_listed : scopes sh tree.toPresets custom = str "core"::names (profiles custom) := by
  rw [scopes_tree,listed_names listed,List.takeWhile_eq_self_iff.mpr listed]

variable (valid : validate sh tree.toPresets custom = .ok ())
include valid

theorem listed_settled : ∀ scope ∈ str "core"::names (profiles custom),
    tree.directory scope = true ∧ Settled sh tree.toPresets custom scope := by
  refine List.forall_mem_cons.mpr ⟨validated_core valid,fun name own => ⟨listed name own,?_⟩⟩
  exact validated_name valid (by rwa [listed_names listed]) (listed name own)

/-- Where every profile is a directory and the service is known, each key that is asked for has its line. -/
theorem printed_selected (known : service = [] ∨ Served sh tree.toPresets custom service) (request : Request) {k : Str}
    (selected : Selected sh tree.toPresets custom request service k) :
    ∃ report : Report, report.key = k ∧ request.row report ∈ records newline (print sh tree.toPresets request service custom) := by
  obtain ⟨⟨scope,own,asked,level,text,found,held,member⟩,customised⟩ := selected
  rw [← scopes_listed listed] at own
  obtain ⟨report,inside,key,source⟩ := reported_key own found held member
  have base : service = [] ∨ ∃ text, tree.file service (str "default") = some text ∧ divided text ≠ [] :=
    known.imp_right fun served => served.1
  have whole : ∀ report ∈ served sh tree.toPresets service custom, report.Whole := fun report within =>
    reports_whole report ((mem_served valid base).mp within).1
  have left : report ∈ served sh tree.toPresets service custom := by
    refine (mem_served valid base).mpr ⟨inside,asked.imp_right fun same => ?_⟩
    obtain ⟨default,defaults,covers⟩ := tree.known scope level text held
    obtain ⟨entry,within,same'⟩ := List.mem_map.mp member
    rw [tree.divided held] at within
    rw [← same,key,← same']
    exact ⟨default,defaults,by rw [tree.divided defaults]; exact covers entry within⟩
  refine ⟨report,key,printed_row request whole ?_⟩
  cases request with
  | differs => exact List.mem_filter.mpr ⟨left,by simpa using source (key ▸ customised)⟩
  | _ => exact left

end Listed

/-- An invocation is faithful exactly where, if the words that the shell makes of the profiles
all have presets, every profile is a directory and the service is none or known. -/
theorem invoke_faithful_iff (sh : Interpreter) (tree : Tree) (request : Request) (service custom : Str) :
    Faithful sh tree.toPresets custom request service (invoke sh tree.toPresets request service custom) ↔
      ((∀ scope ∈ str "core"::listWords sh (profiles custom),
          tree.directory scope = true ∧ Settled sh tree.toPresets custom scope) →
        (∀ name ∈ names (profiles custom), tree.directory name = true) ∧
          (service = [] ∨ Served sh tree.toPresets custom service)) := by
  rw [← validate_iff]
  constructor
  · rintro ⟨_,fails⟩ valid
    rw [invoke_valid valid] at fails
    have all : ¬ Unknown sh tree.toPresets custom service := fun unknown => fails unknown rfl
    obtain ⟨scopes,service⟩ := not_or.mp all
    refine ⟨fun name own => ?_,?_⟩
    · by_contra missing
      exact scopes ⟨name,List.mem_cons_of_mem _ own,fun settled => missing settled.1⟩
    · by_contra unserved
      obtain ⟨asked,missing⟩ := not_or.mp unserved
      exact service ⟨asked,missing⟩
  · intro condition
    cases valid : validate sh tree.toPresets custom with
    | error message =>
      rw [invoke_error valid]
      exact ⟨fun succeeds => absurd succeeds (by decide),fun _ => by decide⟩
    | ok _ =>
      obtain ⟨listed,known⟩ := condition valid
      rw [invoke_valid valid]
      refine ⟨fun _ k selected => printed_selected listed valid known request selected,fun unknown => ?_⟩
      rcases unknown with ⟨scope,own,missing⟩ | ⟨asked,unserved⟩
      · exact absurd (listed_settled listed valid scope own) missing
      · exact absurd (known.resolve_left asked) unserved

/-- Of a service that there is not nothing is printed, with success. -/
theorem unknown_service_succeeds : ¬ ∀ (sh : Interpreter) (tree : Tree) (request : Request) (service custom : Str),
    Faithful sh tree.toPresets custom request service (invoke sh tree.toPresets request service custom) := by
  intro claim
  have valid : validate plainShell shippedTree.toPresets (parseEnvfile []) = .ok () := by decide +kernel
  obtain ⟨_,fails⟩ := claim plainShell shippedTree (.resolves false) (str "nosuch") (parseEnvfile [])
  rw [invoke_valid valid] at fails
  have missing : shippedTree.file (str "nosuch") (str "default") = none := by decide +kernel
  refine fails (Or.inr ⟨by decide,?_⟩) rfl
  rintro ⟨⟨text,held,_⟩,_⟩
  rw [missing] at held
  cases held

end Lines

end FipsShield.Config
