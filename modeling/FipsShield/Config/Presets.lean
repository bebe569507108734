import FipsShield.Config.Resolve

/-! The presets (`presets/<scope>/<level>.env`), without their comments. -/
namespace FipsShield.Config
open Text Lines Banlist

/-- A key and its value at each level. -/
structure Row where
  key : String
  strict : String
  default : String
  loose : String

def coreRows : List Row :=
  [⟨"SHIELD_HANDSHAKE_RATE","2r/s","5r/s","10r/s"⟩,
    ⟨"SHIELD_HANDSHAKE_ZONE_SIZE","1m","1m","1m"⟩,
    ⟨"SHIELD_CONN_ZONE_SIZE","1m","1m","1m"⟩,
    ⟨"SHIELD_CONNRATE_ZONE_SIZE","1m","1m","1m"⟩,
    ⟨"SHIELD_CONN_WINDOW","60","60","60"⟩,
    ⟨"SHIELD_CONNRATE_TIMEOUT","300s","300s","300s"⟩,
    ⟨"SHIELD_SOCKET_DIR","/run/fips-shield","/run/fips-shield","/run/fips-shield"⟩,
    ⟨"SHIELD_BAN_FILE","/var/lib/fips-shield/banlist","/var/lib/fips-shield/banlist","/var/lib/fips-shield/banlist"⟩,
    ⟨"SHIELD_BAN_RECHECK","5","10","30"⟩,
    ⟨"SHIELD_BAN_ALSO_FILE","false","false","false"⟩,
    ⟨"SHIELD_F2B_FINDTIME","900","600","300"⟩,
    ⟨"SHIELD_F2B_BANTIME","21600","3600","900"⟩,
    ⟨"SHIELD_F2B_HANDSHAKE_MAXRETRY","10","20","40"⟩,
    ⟨"SHIELD_F2B_VERDICT_MAXRETRY","6","20","50"⟩,
    ⟨"SHIELD_F2B_ABUSE_MAXRETRY","2","3","5"⟩,
    ⟨"SHIELD_F2B_CONNRATE_MAXRETRY","15","30","60"⟩,
    ⟨"SHIELD_F2B_CONN_MAXRETRY","10","20","40"⟩,
    ⟨"SHIELD_F2B_SCAN_MAXRETRY","2","5","15"⟩,
    ⟨"SHIELD_F2B_IGNOREIP","","",""⟩,
    ⟨"SHIELD_F2B_IGNORESELF","true","true","true"⟩]

def httpRows : List Row :=
  [⟨"SHIELD_HTTP_SERVICE","web","web","web"⟩,
    ⟨"SHIELD_HTTP_LISTEN_PORT","8080","8080","8080"⟩,
    ⟨"SHIELD_HTTP_UPSTREAM","127.0.0.1:3000","127.0.0.1:3000","127.0.0.1:3000"⟩,
    ⟨"SHIELD_HTTP_SERVER_NAME","_","_","_"⟩,
    ⟨"SHIELD_HTTP_CONN_RATE","60","120","300"⟩,
    ⟨"SHIELD_HTTP_MAX_CONNS_PER_NODE","10","30","100"⟩,
    ⟨"SHIELD_HTTP_IDLE_TIMEOUT","30s","75s","300s"⟩,
    ⟨"SHIELD_HTTP_REQ_RATE","10r/s","20r/s","50r/s"⟩,
    ⟨"SHIELD_HTTP_REQ_BURST","20","40","100"⟩,
    ⟨"SHIELD_HTTP_METHODS","GET HEAD","GET HEAD POST","GET HEAD POST PUT DELETE"⟩,
    ⟨"SHIELD_HTTP_KEEPALIVE_REQUESTS","50","100","500"⟩,
    ⟨"SHIELD_HTTP_PATH_REGEX",".*",".*",".*"⟩,
    ⟨"SHIELD_HTTP_MAX_BODY","256k","1m","16m"⟩]

def strfryRows : List Row :=
  [⟨"SHIELD_LISTEN_PORT","80","80","80"⟩,
    ⟨"SHIELD_SERVER_NAME","_","_","_"⟩,
    ⟨"SHIELD_UPSTREAM","127.0.0.1:7777","127.0.0.1:7777","127.0.0.1:7777"⟩,
    ⟨"SHIELD_MAX_CONNS_PER_NODE","4","12","16"⟩,
    ⟨"SHIELD_HANDSHAKE_BURST","5","10","20"⟩,
    ⟨"SHIELD_STRFRY_CONN_RATE","30","60","120"⟩,
    ⟨"SHIELD_WS_IDLE_TIMEOUT","120s","300s","600s"⟩,
    ⟨"SHIELD_WS_MAX_MSG","65536","131072","131072"⟩,
    ⟨"SHIELD_WS_MAX_SUBS","25","50","100"⟩,
    ⟨"SHIELD_WS_MAX_FILTERS","10","20","40"⟩,
    ⟨"SHIELD_WS_MAX_FILTER_ITEMS","750","2000","5000"⟩,
    ⟨"SHIELD_WS_MAX_HS_READS","16","32","64"⟩,
    ⟨"SHIELD_WS_MAX_MSG_READS","64","",""⟩,
    ⟨"SHIELD_WS_MAX_LIMIT","5000","20000","100000"⟩,
    ⟨"SHIELD_WS_MAX_FILTER_VALUE","256","512","1024"⟩,
    ⟨"SHIELD_WS_REQUIRE_NARROWING","true","true","false"⟩,
    ⟨"SHIELD_WS_MSG_RATE","10","30","100"⟩,
    ⟨"SHIELD_WS_MSG_BURST","50","200","400"⟩,
    ⟨"SHIELD_WS_EVENT_RATE","2","5","10"⟩,
    ⟨"SHIELD_WS_EVENT_BURST","20","50","100"⟩,
    ⟨"SHIELD_WS_REQ_RATE","5","10","20"⟩,
    ⟨"SHIELD_WS_REQ_BURST","30","60","120"⟩,
    ⟨"SHIELD_NOSTR_TYPES","EVENT,REQ,CLOSE,COUNT,AUTH,NEG-OPEN,NEG-MSG,NEG-CLOSE","EVENT,REQ,CLOSE,COUNT,AUTH,NEG-OPEN,NEG-MSG,NEG-CLOSE","EVENT,REQ,CLOSE,COUNT,AUTH,NEG-OPEN,NEG-MSG,NEG-CLOSE"⟩,
    ⟨"SHIELD_NOSTR_KIND_DENY","","",""⟩]

def tcpRows : List Row :=
  [⟨"SHIELD_TCP_SERVICE","tcp","tcp","tcp"⟩,
    ⟨"SHIELD_TCP_LISTEN_PORT","2222","2222","2222"⟩,
    ⟨"SHIELD_TCP_UPSTREAM","127.0.0.1:22","127.0.0.1:22","127.0.0.1:22"⟩,
    ⟨"SHIELD_TCP_CONN_RATE","5","10","30"⟩,
    ⟨"SHIELD_TCP_MAX_CONNS_PER_NODE","2","4","10"⟩,
    ⟨"SHIELD_TCP_IDLE_TIMEOUT","10m","1h","4h"⟩]

def sections : List (Str × List Row) :=
  [(str "core",coreRows),(str "http",httpRows),(str "strfry",strfryRows),(str "tcp",tcpRows)]

def rowsOf (scope : Str) : Option (List Row) := (sections.find? fun part => part.1 = scope).map Prod.snd

def column (level : Str) : Option (Row → String) :=
  if level = str "strict" then some Row.strict
  else if level = str "default" then some Row.default
  else if level = str "loose" then some Row.loose
  else none

def envLine (key value : Str) : EnvLine :=
  if own : isIdentifier key = true ∧ 0x0A ∉ value then .assign ⟨key,value,own.1,own.2⟩
  else .remark [] List.not_mem_nil (Or.inl rfl)

def presetLines (scope level : Str) : Option (List EnvLine) :=
  (rowsOf scope).bind fun rows => (column level).map fun value =>
    rows.map fun row => envLine (str row.key) (str (value row))

/-- The keys are identifiers that begin with `SHIELD_` and choose no level, and a line holds each value. -/
theorem rows_proper : ∀ part ∈ sections, ∀ row ∈ part.2,
    (isIdentifier (str row.key) = true ∧ (str "SHIELD_").isPrefixOf (str row.key) = true ∧
      (str "_PRESET").isSuffixOf (str row.key) = false) ∧
    0x0A ∉ str row.strict ∧ 0x0A ∉ str row.default ∧ 0x0A ∉ str row.loose := by
  decide +kernel

theorem keys_nodup : (sections.flatMap fun part => part.2.map fun row => str row.key).Nodup := by
  have texts : (sections.flatMap fun part => part.2.map Row.key).Nodup := by
    simp [sections,coreRows,httpRows,strfryRows,tcpRows]
  have units := texts.map str_injective
  simp only [List.map_flatMap,List.map_map] at units
  exact units

theorem keys_other {name : String} (other : ∀ part ∈ sections, ∀ row ∈ part.2, row.key ≠ name) :
    ∀ part ∈ sections, ∀ row ∈ part.2, str row.key ≠ str name :=
  fun part own row within same => other part own row within (str_injective same)

theorem keys_disjoint {part other : Str × List Row} (own : part ∈ sections) (own' : other ∈ sections)
    (apart : part ≠ other) :
    List.Disjoint (part.2.map fun row => str row.key) (other.2.map fun row => str row.key) := by
  have symmetric : Std.Symm (Function.onFun List.Disjoint fun part : Str × List Row => part.2.map fun row => str row.key) :=
    ⟨fun _ _ disjoint => disjoint.symm⟩
  exact (List.nodup_flatMap.mp keys_nodup).2.forall own own' apart

theorem rowsOf_mem {scope : Str} {rows : List Row} (own : rowsOf scope = some rows) : (scope,rows) ∈ sections := by
  obtain ⟨part,found,rfl⟩ := Option.map_eq_some_iff.mp own
  have name : part.1 = scope := by simpa using List.find?_some found
  subst name
  exact List.mem_of_find?_eq_some found

theorem rowsOf_part {part : Str × List Row} (own : part ∈ sections) : rowsOf part.1 = some part.2 := by
  simp only [sections,List.mem_cons,List.not_mem_nil,or_false] at own
  rcases own with rfl | rfl | rfl | rfl <;> rfl

theorem column_single {level : Str} {value : Row → String} (own : column level = some value) {rows : Str × List Row}
    (member : rows ∈ sections) {row : Row} (within : row ∈ rows.2) : 0x0A ∉ str (value row) := by
  obtain ⟨_,strict,default,loose⟩ := rows_proper rows member row within
  rw [column] at own
  split_ifs at own <;> obtain rfl := Option.some.inj own
  · exact strict
  · exact default
  · exact loose

theorem presetLines_entries {scope level : Str} {preset : List EnvLine} (lines : presetLines scope level = some preset) :
    ∃ rows value, rowsOf scope = some rows ∧ column level = some value ∧
      entries preset = rows.map fun row => (str row.key,str (value row)) := by
  obtain ⟨rows,own,held⟩ := Option.bind_eq_some_iff.mp lines
  obtain ⟨value,level,rfl⟩ := Option.map_eq_some_iff.mp held
  have member := rowsOf_mem own
  refine ⟨rows,value,own,level,?_⟩
  rw [entries,List.filterMap_map,← List.filterMap_eq_map]
  refine List.filterMap_congr fun row within => ?_
  have proper : isIdentifier (str row.key) = true ∧ 0x0A ∉ str (value row) :=
    ⟨(rows_proper (scope,rows) member row within).1.1,column_single level member within⟩
  rw [Function.comp_apply,envLine,dif_pos proper]
  rfl

theorem keys_entries {rows : List Row} (value : Row → String) :
    (rows.map fun row => (str row.key,str (value row))).map Prod.fst = rows.map fun row => str row.key := by
  simp

def shipped (path : Str) : Catalog where
  path := path
  directory scope := (rowsOf scope).isSome
  file scope level := (presetLines scope level).map fileText
  defaults := sections.filterMap fun part => (presetLines part.1 (str "default")).map fileText
  scopes := sections.map Prod.fst
  lines := presetLines
  texts _ _ _ := rfl
  files := by rw [List.filterMap_map]; rfl
  directories := by decide +kernel
  core := by decide +kernel
  plain := by decide +kernel
  spoken := by decide +kernel
  known := by
    intro scope _ level preset lines entry member
    obtain ⟨rows,value,own,_,same⟩ := presetLines_entries lines
    have base : presetLines scope (str "default") =
        some (rows.map fun row => envLine (str row.key) (str row.default)) := by
      rw [presetLines,own]
      rfl
    obtain ⟨rows',value',own',_,same'⟩ := presetLines_entries base
    obtain rfl := Option.some.inj (own.symm.trans own')
    refine ⟨_,base,?_⟩
    rw [same',keys_entries,← keys_entries value,← same]
    exact List.mem_map_of_mem member
  apart := by
    intro scope _ scope' _ level level' preset preset' lines lines' entry member entry' member' key
    obtain ⟨rows,value,own,_,same⟩ := presetLines_entries lines
    obtain ⟨rows',value',own',_,same'⟩ := presetLines_entries lines'
    have inside : entry.1 ∈ rows.map fun row => str row.key := by
      rw [← keys_entries value,← same]
      exact List.mem_map_of_mem member
    have inside' : entry.1 ∈ rows'.map fun row => str row.key := by
      rw [← keys_entries value',← same',key]
      exact List.mem_map_of_mem member'
    by_contra other
    exact keys_disjoint (rowsOf_mem own) (rowsOf_mem own') (fun parts => other (congrArg Prod.fst parts)) inside inside'
  once := by
    intro scope _ level preset lines
    obtain ⟨rows,value,own,_,same⟩ := presetLines_entries lines
    rw [same,keys_entries]
    exact (List.nodup_flatMap.mp keys_nodup).1 _ (rowsOf_mem own)

theorem presetLines_row {scope level : Str} {rows : List Row} {value : Row → String} (own : rowsOf scope = some rows)
    (levels : column level = some value) : ∃ preset, presetLines scope level = some preset ∧
      entries preset = rows.map fun row => (str row.key,str (value row)) := by
  have held : presetLines scope level = some (rows.map fun row => envLine (str row.key) (str (value row))) := by
    rw [presetLines,own,levels]
    rfl
  obtain ⟨rows',value',own',levels',same⟩ := presetLines_entries held
  obtain rfl := Option.some.inj (own.symm.trans own')
  obtain rfl := Option.some.inj (levels.symm.trans levels')
  exact ⟨_,held,same⟩

theorem due_row (path : Str) {layer : List (Str × Str)} {scope : Str} {rows : List Row} {value : Row → String}
    {row : Row} (used : scope ∈ enabled layer) (own : rowsOf scope = some rows)
    (level : column (levelOf layer scope) = some value) (member : row ∈ rows) :
    Due (shipped path) layer (str row.key) ((last layer (str row.key)).getD (str (value row))) := by
  obtain ⟨preset,lines,same⟩ := presetLines_row own level
  refine Or.inl ⟨scope,used,preset,lines,str (value row),?_,rfl⟩
  rw [same]
  exact List.mem_map_of_mem member

theorem defines_iff (path k : Str) : (shipped path).Defines k ↔ ∃ part ∈ sections, ∃ row ∈ part.2, str row.key = k := by
  constructor
  · rintro ⟨scope,_,level,preset,lines,member⟩
    obtain ⟨rows,value,own,_,same⟩ := presetLines_entries lines
    rw [same,keys_entries] at member
    obtain ⟨row,within,key⟩ := List.mem_map.mp member
    exact ⟨(scope,rows),rowsOf_mem own,row,within,key⟩
  · rintro ⟨part,own,row,within,rfl⟩
    obtain ⟨preset,lines,same⟩ := presetLines_row (rowsOf_part own) (rfl : column (str "default") = some Row.default)
    refine ⟨part.1,List.mem_map_of_mem own,str "default",preset,lines,?_⟩
    rw [same,keys_entries]
    exact List.mem_map_of_mem within

/-! ## The keys of core -/

/-- The value that core's preset has at core's level. -/
def presetValue (layer : List (Str × Str)) (k : Str) : Str :=
  (last (entries ((presetLines (str "core") (levelOf layer (str "core"))).getD [])) k).getD []

theorem readScopes_shipped (sh : Interpreter) (path : Str) (layer : List (Str × Str)) :
    ∀ scope ∈ readScopes sh (shipped path) layer, scope ∈ (shipped path).scopes := by
  intro scope member
  rcases List.mem_cons.mp member with rfl | profile
  · exact (shipped path).core
  · have there : (shipped path).directory scope = true := List.mem_takeWhile_imp profile
    obtain ⟨rows,own⟩ := Option.isSome_iff_exists.mp there
    exact List.mem_map.mpr ⟨(scope,rows),rowsOf_mem own,rfl⟩

section Core
variable {layer : List (Str × Str)} {value : Row → String} {row : Row}
  (level : column (levelOf layer (str "core")) = some value) (member : row ∈ coreRows)
include level member

/-- Only core has a key of core, and once. -/
theorem core_only {scope w : Str} {preset : List EnvLine} (lines : presetLines scope (levelOf layer scope) = some preset)
    (inside : (str row.key,w) ∈ entries preset) : w = str (value row) := by
  obtain ⟨rows,value',own,level',same⟩ := presetLines_entries lines
  rw [same] at inside
  obtain ⟨row',within,entry⟩ := List.mem_map.mp inside
  obtain ⟨key,rfl⟩ := Prod.mk.inj entry
  have core : (str "core",coreRows) ∈ sections := List.mem_cons_self
  by_cases other : (scope,rows) = (str "core",coreRows)
  · obtain ⟨rfl,rfl⟩ := Prod.mk.inj other
    obtain rfl := Option.some.inj (level.symm.trans level')
    have once := (List.nodup_flatMap.mp keys_nodup).1 _ core
    obtain rfl := List.inj_on_of_nodup_map once within member key
    rfl
  · have apart := keys_disjoint (rowsOf_mem own) core other
    exact absurd (List.mem_map_of_mem member) (key ▸ apart (List.mem_map_of_mem within))

theorem presetValue_row : presetValue layer (str row.key) = str (value row) := by
  obtain ⟨preset,lines,same⟩ := presetLines_row (rfl : rowsOf (str "core") = some coreRows) level
  have inside : (str row.key,str (value row)) ∈ entries preset := by
    rw [same]
    exact List.mem_map_of_mem member
  rw [presetValue,lines,Option.getD_some,last_only inside fun w other => core_only level member lines other,Option.getD_some]

omit level in
theorem core_defined (path : Str) : (shipped path).Defines (str row.key) :=
  (defines_iff path (str row.key)).mpr ⟨_,List.mem_cons_self,row,member,rfl⟩

theorem due_core (path : Str) {v : Str} :
    Due (shipped path) layer (str row.key) v ↔ v = (last layer (str row.key)).getD (str (value row)) := by
  constructor
  · rintro (⟨scope,_,preset,lines,w,inside,rfl⟩ | ⟨unknown,_⟩)
    · rw [core_only level member lines inside]
    · exact absurd (core_defined member path) unknown
  · rintro rfl
    exact due_row path List.mem_cons_self rfl level member

theorem last_core (sh : Interpreter) (path : Str) : last (readEntries sh (shipped path) layer) (str row.key) =
    some ((last layer (str row.key)).getD (str (value row))) := by
  obtain ⟨preset,lines,same⟩ := presetLines_row (rfl : rowsOf (str "core") = some coreRows) level
  refine last_only ?_ fun w inside => ?_
  · refine List.mem_append_left _ (List.mem_flatMap.mpr ⟨str "core",List.mem_cons_self,mem_scopeEntries.mpr ?_⟩)
    refine ⟨preset,lines,str (value row),?_,rfl⟩
    rw [same]
    exact List.mem_map_of_mem member
  · rcases List.mem_append.mp inside with read | extra
    · obtain ⟨scope,_,within⟩ := List.mem_flatMap.mp read
      obtain ⟨preset,lines,v,entry,rfl⟩ := mem_scopeEntries.mp within
      rw [core_only level member lines entry]
    · exact absurd (core_defined member path) (mem_extraEntries.mp extra).1

end Core

def operatorLines : List EnvLine :=
  [envLine (str "SHIELD_PROFILES") (str "http"),envLine (str "SHIELD_PRESET") (str "strict"),
    envLine (str "SHIELD_HTTP_REQ_RATE") (str "1r/s"),envLine (str "SHIELD_NOTE") (str "a\t'b'=c"),
    envLine (str "SHIELD_HTTP_REQ_RATE") []]

/-- An empty value stays, a preset's is taken at the level, and a key of no preset is kept. -/
theorem resolve_due_operator : ∃ out, resolve plainShell (shipped (str "/presets")).toPresets false
      (parseEnvfile (fileText operatorLines)) = .ok out ∧
    str "SHIELD_HTTP_REQ_RATE=" ∈ records newline out ∧ str "SHIELD_HTTP_CONN_RATE=60" ∈ records newline out ∧
    str "SHIELD_NOTE=a\t'b'=c" ∈ records newline out := by
  have given : names (profilesOf (entries operatorLines)) = [str "http"] := by decide +kernel
  have named : ∀ profile ∈ names (profilesOf (entries operatorLines)), profile ∈ (shipped (str "/presets")).scopes := by
    rw [given]
    decide +kernel
  have valid : validate plainShell (shipped (str "/presets")).toPresets (written 0x0A ((entries operatorLines).map tabbed)) =
      .ok () := by
    decide +kernel
  have resolves := resolve_layer (entries_proper operatorLines).legible named valid false
  rw [← settings_file,← parseEnvfile] at resolves
  have due := (resolve_due plainShell (shipped (str "/presets")) operatorLines _ named resolves).1
  have used : str "http" ∈ enabled (entries operatorLines) := by
    rw [enabled,given]
    simp
  have level : column (levelOf (entries operatorLines) (str "http")) = some Row.strict := by
    have strict : levelOf (entries operatorLines) (str "http") = str "strict" := by decide +kernel
    rw [strict]
    rfl
  refine ⟨_,resolves,(due _).mpr ?_,(due _).mpr ?_,(due _).mpr ?_⟩
  · exact ⟨_,_,due_row _ used rfl level (List.get_mem httpRows ⟨7,by decide⟩),by decide +kernel⟩
  · exact ⟨_,_,due_row _ used rfl level (List.get_mem httpRows ⟨4,by decide⟩),by decide +kernel⟩
  · refine ⟨str "SHIELD_NOTE",str "a\t'b'=c",Or.inr ⟨?_,by decide +kernel⟩,by decide +kernel⟩
    rw [defines_iff]
    decide +kernel

end FipsShield.Config
