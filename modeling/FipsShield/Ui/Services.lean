import FipsShield.Config.Rendered

/-! The services that the dashboard shows (`services` in `ui/src/collect.rs`), and what the
resolver says of them. -/
namespace FipsShield.Ui
open Text Lines Banlist Config

/-- The names of a profile's keys. -/
structure Keys where
  service : Str
  port : Str
  upstream : Str
  rate : Str

def keysFor (profile : Str) : Keys :=
  if profile = str "strfry" then ⟨[],str "SHIELD_LISTEN_PORT",str "SHIELD_UPSTREAM",str "SHIELD_STRFRY_CONN_RATE"⟩
  else if profile = str "http" then
    ⟨str "SHIELD_HTTP_SERVICE",str "SHIELD_HTTP_LISTEN_PORT",str "SHIELD_HTTP_UPSTREAM",str "SHIELD_HTTP_CONN_RATE"⟩
  else if profile = str "tcp" then
    ⟨str "SHIELD_TCP_SERVICE",str "SHIELD_TCP_LISTEN_PORT",str "SHIELD_TCP_UPSTREAM",str "SHIELD_TCP_CONN_RATE"⟩
  else ⟨[],[],[],[]⟩

def relevantTo (key profile : Str) : Bool :=
  if profile = str "http" then (str "SHIELD_HTTP_").isPrefixOf key
  else if profile = str "tcp" then (str "SHIELD_TCP_").isPrefixOf key
  else if profile = str "strfry" then
    (str "SHIELD_WS_").isPrefixOf key || (str "SHIELD_STRFRY_").isPrefixOf key || key == str "SHIELD_MAX_CONNS_PER_NODE" ||
      (str "SHIELD_HANDSHAKE_").isPrefixOf key
  else false

/-- Whether a key names a limit. -/
def limiting (key : Str) : Bool :=
  within (str "RATE") key || within (str "MAX") key || within (str "TIMEOUT") key || within (str "BURST") key

/-- `Config::source`. -/
def source (config : List Report) (key : Str) : Option Str := (config.find? fun entry => entry.key = key).map Report.source

structure Service where
  profile : Str
  logName : Str
  listenPort : Str
  upstream : Str
  preset : Str
  limits : List Report

/-- The level in a source, if it is a preset. -/
def sourceLevel (source : Str) : Option Str :=
  if (str "preset:").isPrefixOf source then ((source.drop (str "preset:").length).splitOnP (· == 0x2F))[1]? else none

def service (config : List Report) (profile : Str) : Service :=
  let keys := keysFor profile
  { profile
    logName := if keys.service = [] then profile else (get config keys.service).getD profile
    listenPort := (get config keys.port).getD []
    upstream := (get config keys.upstream).getD []
    preset := ((source config keys.rate).bind sourceLevel).getD (str "custom")
    limits := config.filter fun entry => limiting entry.key && relevantTo entry.key profile }

section Fields
variable (config : List Report) (profile : Str)

theorem service_listenPort : (service config profile).listenPort = (Config.get config (keysFor profile).port).getD [] := rfl

theorem service_upstream : (service config profile).upstream = (Config.get config (keysFor profile).upstream).getD [] := rfl

theorem service_logName : (service config profile).logName =
    if (keysFor profile).service = [] then profile else (Config.get config (keysFor profile).service).getD profile := rfl

theorem service_preset : (service config profile).preset =
    ((source config (keysFor profile).rate).bind sourceLevel).getD (str "custom") := rfl

end Fields

def services (config : List Report) : List Service := (configProfiles config).map (service config)

/-! ## What is shown -/

/-- The names of the shipped profiles, with the sections of their presets. -/
def profileSections : List (Str × List Row) := [(str "strfry",strfryRows),(str "tcp",tcpRows),(str "http",httpRows)]

section Shown
variable {sh : Interpreter} {path : Str} {deployment : Deployment}

theorem scopeReports_source {scope : Str} (there : (ownNames.tree path).directory scope = true) {report : Report}
    (member : report ∈ scopeReports sh (ownNames.tree path).toPresets deployment.custom scope) :
    report.source = sourceOf (entries deployment.lines) scope report.key := by
  rw [scopeReports] at member
  cases found : levelFor sh scope deployment.custom with
  | error message =>
    rw [found] at member
    cases member
  | ok level =>
    simp only [found] at member
    obtain ⟨entry,_,rfl⟩ := List.mem_map.mp member
    have custom : customGet entry.1 deployment.custom = last (entries deployment.lines) entry.1 := by
      rw [Deployment.custom,customGet_text,custom_divided]
    rw [Deployment.custom,parseEnvfile_divided] at found
    obtain ⟨rfl,_,_⟩ := levelFor_ok (divided_legible _) ((ownNames.tree path).spoken scope there)
      ((ownNames.tree path).single there) found
    rw [custom_divided,custom]
    cases set : last (entries deployment.lines) entry.1 with
    | none => simp [sourceOf,set]
    | some v => simp [sourceOf,set]

variable (valid : validate sh (ownNames.tree path).toPresets deployment.custom = .ok ())
include valid

/-- A key of a preset is reported of the scope of that preset. -/
theorem reports_source_row {report : Report} (member : report ∈ reports sh (ownNames.tree path).toPresets deployment.custom)
    {part : Str × List Row} (own : part ∈ sections) {row : Row} (within : row ∈ part.2) (key : report.key = str row.key) :
    report.source = sourceOf (entries deployment.lines) part.1 report.key := by
  rcases List.mem_append.mp member with read | extra
  · obtain ⟨scope,inside,within'⟩ := List.mem_flatMap.mp read
    obtain ⟨part',own',value,place,_,pairs⟩ := scopeReports_shipped (validated_scopes valid scope inside).2
    obtain ⟨_,_,rfl⟩ := Option.map_eq_some_iff.mp place
    have pair := List.mem_map_of_mem (f := fun report : Report => (report.key,report.value)) within'
    rw [Deployment.custom,pairs] at pair
    obtain ⟨row',rowed,same⟩ := List.mem_map.mp pair
    have keys : str row'.key = str row.key := (congrArg Prod.fst same).trans key
    have parts : part' = part := by
      by_contra apart
      exact keys_disjoint own' own apart (List.mem_map_of_mem rowed) (keys ▸ List.mem_map_of_mem within)
    rw [← parts]
    exact scopeReports_source (validated_scopes valid _ inside).1 within'
  · rw [Deployment.custom,extraReports_text] at extra
    obtain ⟨entry,own',rfl⟩ := List.mem_map.mp extra
    have unknown : entry.1 ∉ presetKeys (ownNames.tree path).toPresets := by simpa using (List.mem_filter.mp own').2
    exact absurd (presetKeys_shipped.mpr ⟨part,own,row,within,key.symm⟩) unknown

/-- What is loaded of the reports. -/
def loaded (reports : List Report) : List Report :=
  reports.map fun report => ⟨report.key,unreturned report.value,report.source⟩

omit valid in
theorem find_loaded {k : Str} : (loaded (reports sh (ownNames.tree path).toPresets deployment.custom)).find? (fun entry => entry.key = k) =
    ((reports sh (ownNames.tree path).toPresets deployment.custom).find? fun report => report.key = k).map fun report =>
      ⟨report.key,unreturned report.value,report.source⟩ := by
  rw [loaded,List.find?_map]
  rfl

theorem get_loaded (k : Str) : Config.get (loaded (reports sh (ownNames.tree path).toPresets deployment.custom)) k =
    (inForce (entries deployment.lines) (deployment.scopes sh path) k).map unreturned := by
  rw [Config.get,find_loaded]
  cases first : (reports sh (ownNames.tree path).toPresets deployment.custom).find? fun report => report.key = k with
  | none =>
    cases held : inForce (entries deployment.lines) (deployment.scopes sh path) k with
    | none => rfl
    | some v =>
      obtain ⟨report,own,key⟩ := inForce_reported valid held
      have missing := List.find?_eq_none.mp first report own
      simp [key] at missing
  | some report =>
    have key : report.key = k := by simpa using List.find?_some first
    have held := reports_inForce valid (List.mem_of_find?_eq_some first)
    rw [key] at held
    rw [held]
    rfl

theorem source_loaded {part : Str × List Row} (own : part ∈ sections) (read : part.1 ∈ deployment.scopes sh path) {row : Row}
    (within : row ∈ part.2) : source (loaded (reports sh (ownNames.tree path).toPresets deployment.custom)) (str row.key) =
      some (sourceOf (entries deployment.lines) part.1 (str row.key)) := by
  obtain ⟨value,level⟩ := read_column valid read
  obtain ⟨report,member,key⟩ := inForce_reported valid (inForce_read own within read level)
  rw [source,find_loaded]
  cases first : (reports sh (ownNames.tree path).toPresets deployment.custom).find? fun report => report.key = str row.key with
  | none =>
    have missing := List.find?_eq_none.mp first report member
    simp [key] at missing
  | some report' =>
    have key' : report'.key = str row.key := by simpa using List.find?_some first
    rw [← key']
    exact congrArg some (reports_source_row valid (List.mem_of_find?_eq_some first) own within key')

end Shown

theorem sourceLevel_preset {scope level : Str} (plain : 0x2F ∉ scope) (plain' : 0x2F ∉ level) :
    sourceLevel (str "preset:" ++ scope ++ str "/" ++ level) = some level := by
  have slash : str "/" = [0x2F] := by decide
  have free : ∀ u ∈ scope, (u == 0x2F) = false := fun u own => by simpa using fun same : u = 0x2F => plain (same ▸ own)
  have free' : ∀ u ∈ level, (u == 0x2F) = false := fun u own => by simpa using fun same : u = 0x2F => plain' (same ▸ own)
  have text : str "preset:" ++ scope ++ str "/" ++ level = str "preset:" ++ (scope ++ 0x2F::level) := by simp [slash]
  have split : (scope ++ 0x2F::level).splitOnP (· == 0x2F) = scope.splitOnP (· == 0x2F) ++ level.splitOnP (· == 0x2F) :=
    List.splitOnP_append_cons _ _ (beq_self_eq_true _)
  have parts : (scope ++ 0x2F::level).splitOnP (· == 0x2F) = [scope,level] := by
    rw [split,List.splitOnP_eq_singleton free,List.splitOnP_eq_singleton free']
    rfl
  rw [text,sourceLevel,if_pos (List.isPrefixOf_iff_prefix.mpr (List.prefix_append _ _)),List.drop_left,parts]
  rfl

theorem column_plain {level : Str} {value : Row → String} (own : Config.column level = some value) : 0x2F ∉ level := by
  rw [Config.column] at own
  split_ifs at own with strict default loose
  · rw [strict]
    decide
  · rw [default]
    decide
  · rw [loose]
    decide

/-- Each name is of a key in the presets of the profile, but that a relay has no name of its own. -/
theorem keysFor_rows : ∀ part ∈ profileSections, part ∈ sections ∧ 0x2F ∉ part.1 ∧
    (∃ row ∈ part.2, str row.key = (keysFor part.1).port) ∧ (∃ row ∈ part.2, str row.key = (keysFor part.1).upstream) ∧
    (∃ row ∈ part.2, str row.key = (keysFor part.1).rate) ∧
    (part.1 = str "strfry" ∧ (keysFor part.1).service = [] ∨
      part.1 ≠ str "strfry" ∧ (keysFor part.1).service ≠ [] ∧ ∃ row ∈ part.2, str row.key = (keysFor part.1).service) := by
  simp only [profileSections,List.forall_mem_cons,List.not_mem_nil,false_implies,implies_true,and_true]
  refine ⟨⟨by simp [sections],?_⟩,⟨by simp [sections],?_⟩,⟨by simp [sections],?_⟩⟩ <;> decide +kernel

section Services
variable {sh : Interpreter} {path : Str} {deployment : Deployment}

theorem loads_loaded {config : List Report}
    (loads : load (invoke sh (ownNames.tree path).toPresets (.shows true) [] deployment.custom) = some config) :
    validate sh (ownNames.tree path).toPresets deployment.custom = .ok () ∧
      config = loaded (reports sh (ownNames.tree path).toPresets deployment.custom) := by
  cases valid : validate sh (ownNames.tree path).toPresets deployment.custom with
  | error message =>
    rw [invoke_error valid,load,if_neg (by decide)] at loads
    cases loads
  | ok =>
    rw [load_reports valid] at loads
    exact ⟨rfl,(Option.some.inj loads).symm⟩

variable (valid : validate sh (ownNames.tree path).toPresets deployment.custom = .ok ())
include valid

theorem get_row {part : Str × List Row} (own : part ∈ sections) (read : part.1 ∈ deployment.scopes sh path) {k : Str}
    (known : ∃ row ∈ part.2, str row.key = k) :
    Config.get (loaded (reports sh (ownNames.tree path).toPresets deployment.custom)) k =
      some (unreturned (deployment.value sh path k)) := by
  obtain ⟨row,within,rfl⟩ := known
  obtain ⟨value,level⟩ := read_column valid read
  rw [get_loaded valid,Deployment.value,inForce_read own within read level]
  rfl

theorem mem_limits {profile k v : Str} :
    (∃ source, ⟨k,v,source⟩ ∈ (service (loaded (reports sh (ownNames.tree path).toPresets deployment.custom)) profile).limits) ↔
      limiting k = true ∧ relevantTo k profile = true ∧
        (inForce (entries deployment.lines) (deployment.scopes sh path) k).map unreturned = some v := by
  constructor
  · rintro ⟨source,member⟩
    obtain ⟨inside,chosen⟩ := List.mem_filter.mp member
    obtain ⟨limit,relevant⟩ := Bool.and_eq_true_iff.mp chosen
    obtain ⟨report,own,same⟩ := List.mem_map.mp inside
    obtain ⟨rfl,rfl,rfl⟩ := Report.mk.inj same
    rw [reports_inForce valid own]
    exact ⟨limit,relevant,rfl⟩
  · rintro ⟨limit,relevant,held⟩
    obtain ⟨w,force,rfl⟩ := Option.map_eq_some_iff.mp held
    obtain ⟨report,own,rfl⟩ := inForce_reported valid force
    have value := (reports_inForce valid own).symm.trans force
    refine ⟨report.source,List.mem_filter.mpr ⟨List.mem_map.mpr ⟨report,own,?_⟩,Bool.and_eq_true_iff.mpr ⟨limit,relevant⟩⟩⟩
    rw [Option.some.inj value]

end Services

/-- A service that the dashboard shows has the port, the backend, the name and the limits that are
in force for its profile, each without a carriage return at its end, and the level of its preset,
unless its rate is set by hand. -/
theorem services_inForce (sh : Interpreter) (path : Str) (deployment : Deployment) (config : List Report)
    (loads : load (invoke sh (ownNames.tree path).toPresets (.shows true) [] deployment.custom) = some config)
    (shown : Service) (own : shown ∈ services config) (part : Str × List Row) (shipped : part ∈ profileSections)
    (profile : shown.profile = part.1) (read : part.1 ∈ deployment.scopes sh path) :
    shown.listenPort = unreturned (deployment.value sh path (keysFor part.1).port) ∧
      shown.upstream = unreturned (deployment.value sh path (keysFor part.1).upstream) ∧
      shown.logName = (if part.1 = str "strfry" then part.1 else unreturned (deployment.value sh path (keysFor part.1).service)) ∧
      shown.preset = (if (last (entries deployment.lines) (keysFor part.1).rate).isSome then str "custom"
        else levelOf (entries deployment.lines) part.1) ∧
      ∀ k v, (∃ source, ⟨k,v,source⟩ ∈ shown.limits) ↔ limiting k = true ∧ relevantTo k part.1 = true ∧
        (inForce (entries deployment.lines) (deployment.scopes sh path) k).map unreturned = some v := by
  obtain ⟨valid,rfl⟩ := loads_loaded loads
  obtain ⟨name,_,rfl⟩ := List.mem_map.mp own
  obtain rfl : name = part.1 := profile
  obtain ⟨inside,plain,port,upstream,⟨row,within,rate⟩,log⟩ := keysFor_rows part shipped
  refine ⟨?_,?_,?_,?_,fun k v => mem_limits valid⟩
  · rw [service_listenPort,get_row valid inside read port,Option.getD_some]
  · rw [service_upstream,get_row valid inside read upstream,Option.getD_some]
  · rw [service_logName]
    rcases log with ⟨relay,none⟩ | ⟨other,named,known⟩
    · rw [if_pos none,if_pos relay]
    · rw [if_neg named,if_neg other,get_row valid inside read known,Option.getD_some]
  · rw [service_preset,← rate,source_loaded valid inside read within,Option.bind_some,sourceOf]
    obtain ⟨value,level⟩ := read_column valid read
    split_ifs
    · decide
    · rw [sourceLevel_preset plain (column_plain level)]
      rfl

/-- The shell of the gateway, which has a rate of its own at a strict level. -/
theorem services_inForce_gateway : ∃ config shown,
    load (invoke plainShell (ownNames.tree (str "/presets")).toPresets (.shows true) [] gateway.custom) = some config ∧
    shown ∈ services config ∧ shown.profile = str "tcp" ∧ shown.listenPort = str "2222" ∧ shown.logName = str "tcp" ∧
    shown.preset = str "custom" := by
  have valid : validate plainShell (ownNames.tree (str "/presets")).toPresets gateway.custom = .ok () := by
    decide +kernel
  have loads := load_reports valid
  have own : service (loaded (reports plainShell (ownNames.tree (str "/presets")).toPresets gateway.custom)) (str "tcp") ∈
      services (loaded (reports plainShell (ownNames.tree (str "/presets")).toPresets gateway.custom)) := by
    have unknown : ∀ part ∈ sections, ∀ row ∈ part.2, str row.key ≠ profilesKey := by decide +kernel
    refine List.mem_map_of_mem ?_
    rw [configProfiles,get_loaded valid,inForce_unknown unknown]
    decide +kernel
  obtain ⟨port,_,name,preset,_⟩ := services_inForce _ _ _ _ loads _ own (str "tcp",tcpRows) (by simp [profileSections]) rfl
    (by decide +kernel)
  have tcp : (str "tcp",tcpRows) ∈ sections := by simp [sections]
  have service : (⟨"SHIELD_TCP_SERVICE","tcp","tcp","tcp"⟩ : Row) ∈ tcpRows := List.mem_cons_self
  have listen : (⟨"SHIELD_TCP_LISTEN_PORT","2222","2222","2222"⟩ : Row) ∈ tcpRows := List.mem_cons_of_mem _ List.mem_cons_self
  have keys : keysFor (str "tcp") = ⟨str "SHIELD_TCP_SERVICE",str "SHIELD_TCP_LISTEN_PORT",str "SHIELD_TCP_UPSTREAM",
    str "SHIELD_TCP_CONN_RATE"⟩ := rfl
  refine ⟨_,_,loads,own,rfl,port.trans ?_,name.trans ?_,preset.trans (by decide +kernel)⟩
  · rw [keys,gateway_value tcp (by simp) listen]
    decide +kernel
  · rw [keys,gateway_value tcp (by simp) service]
    decide +kernel

end FipsShield.Ui
