import FipsShield.Access
import FipsShield.Config.Rendered
import FipsShield.Lists

/-! From the presets to the engine: the policies that the rendered stream files declare for the
ports of the enabled profiles, and what the engine reads of them. -/
namespace FipsShield.Config
open Text Lines Banlist Directives Numeral

/-! ## What is declared -/

def jsVar : Str := str "js_var"
def policyName : Str := str "$shield_cfg_"

/-- The directives of the files that `nginx` includes in its stream block. -/
def streamItems (files : List (Str × Str)) : List (Item UInt16) :=
  (files.filter fun file => (str ".stream").isSuffixOf file.1).flatMap fun file => (Directives.items nginx file.2).getD []

/-- The variables that are declared, with their values. -/
def declared (files : List (Str × Str)) : List (Str × Str) := (streamItems files).filterMap (arguments jsVar)

/-- The policy of a port, `s.variables['shield_cfg_' + s.variables.server_port]`. -/
def policies (files : List (Str × Str)) (port : UInt16) : Option Str :=
  last (declared files) (policyName ++ natText port.toNat)

/-- A listener of a profile: the variables of its port and of its rate, the service that it names,
and all the knobs of its policy. -/
structure Listener where
  profile : Str
  port : Str
  rate : Str
  service : List (UInt16 ⊕ Str)
  knobs : List (String × List (UInt16 ⊕ Str))

def knob (name key : String) : String × List (UInt16 ⊕ Str) := (name,[.inr (str key)])

def strfryListener : Listener where
  profile := str "strfry"
  port := str "SHIELD_LISTEN_PORT"
  rate := str "SHIELD_STRFRY_CONN_RATE"
  service := (str "strfry").map .inl
  knobs := [("service",(str "strfry").map .inl),knob "ban_file" "SHIELD_BAN_FILE",knob "ban_recheck" "SHIELD_BAN_RECHECK",
    knob "conn_rate" "SHIELD_STRFRY_CONN_RATE",knob "conn_window" "SHIELD_CONN_WINDOW",
    knob "ws_max_msg" "SHIELD_WS_MAX_MSG",knob "ws_max_subs" "SHIELD_WS_MAX_SUBS",
    knob "ws_max_filters" "SHIELD_WS_MAX_FILTERS",knob "ws_max_filter_items" "SHIELD_WS_MAX_FILTER_ITEMS",
    knob "ws_max_hs_reads" "SHIELD_WS_MAX_HS_READS",knob "ws_max_msg_reads" "SHIELD_WS_MAX_MSG_READS",
    knob "ws_max_limit" "SHIELD_WS_MAX_LIMIT",knob "ws_max_filter_value" "SHIELD_WS_MAX_FILTER_VALUE",
    knob "ws_require_narrowing" "SHIELD_WS_REQUIRE_NARROWING",knob "ws_msg_rate" "SHIELD_WS_MSG_RATE",
    knob "ws_msg_burst" "SHIELD_WS_MSG_BURST",knob "ws_event_rate" "SHIELD_WS_EVENT_RATE",
    knob "ws_event_burst" "SHIELD_WS_EVENT_BURST",knob "ws_req_rate" "SHIELD_WS_REQ_RATE",
    knob "ws_req_burst" "SHIELD_WS_REQ_BURST",knob "nostr_types" "SHIELD_NOSTR_TYPES",
    knob "nostr_kind_deny" "SHIELD_NOSTR_KIND_DENY"]

def tcpListener : Listener where
  profile := str "tcp"
  port := str "SHIELD_TCP_LISTEN_PORT"
  rate := str "SHIELD_TCP_CONN_RATE"
  service := [.inr (str "SHIELD_TCP_SERVICE")]
  knobs := [knob "service" "SHIELD_TCP_SERVICE",knob "ban_file" "SHIELD_BAN_FILE",knob "conn_rate" "SHIELD_TCP_CONN_RATE",
    knob "conn_window" "SHIELD_CONN_WINDOW"]

def httpListener : Listener where
  profile := str "http"
  port := str "SHIELD_HTTP_LISTEN_PORT"
  rate := str "SHIELD_HTTP_CONN_RATE"
  service := [.inr (str "SHIELD_HTTP_SERVICE")]
  knobs := [knob "service" "SHIELD_HTTP_SERVICE",knob "ban_file" "SHIELD_BAN_FILE",knob "conn_rate" "SHIELD_HTTP_CONN_RATE",
    knob "conn_window" "SHIELD_CONN_WINDOW"]

def listeners : List Listener := [strfryListener,tcpListener,httpListener]

/-- A policy string of knobs. -/
def policyUnits (knobs : List (String × List (UInt16 ⊕ Str))) : List (UInt16 ⊕ Str) :=
  [.inl 0x3B].intercalate (knobs.map fun entry => (str entry.1).map .inl ++ .inl 0x3D::entry.2)

def Listener.policy (listener : Listener) (value : Str → Str) : List (Str × Str) :=
  listener.knobs.map fun entry => (str entry.1,fill value entry.2)

/-- The declarations of a template's directives, which the values leave as they are. -/
structure Template.Declares (template : Template) (all : List (List (UInt16 ⊕ Str) × List (UInt16 ⊕ Str))) : Prop where
  settled : ∀ item ∈ template.items, item.settled nginx jsVar = true
  declares : template.items.filterMap (arguments (jsVar.map .inl)) = all

def Listener.declaration (listener : Listener) : List (UInt16 ⊕ Str) × List (UInt16 ⊕ Str) :=
  (policyName.map .inl ++ [.inr listener.port],policyUnits listener.knobs)

section Templates

theorem shieldCoreStream_declares : shieldCoreStream.Declares
    [((str "$shield_verdict").map .inl,[]),((str "$shield_service").map .inl,[])] := by
  have text : shieldCoreStream = _ := templateFile_spelled (by repeat constructor)
  rw [text]
  exact ⟨by decide +kernel,by decide +kernel⟩

theorem strfryWsStream_declares : strfryWsStream.Declares [strfryListener.declaration] := by
  have text : strfryWsStream = _ := templateFile_spelled (by repeat constructor)
  rw [text]
  exact ⟨by decide +kernel,by decide +kernel⟩

theorem tcpStream_declares : tcpStream.Declares [tcpListener.declaration] := by
  have text : tcpStream = _ := templateFile_spelled (by repeat constructor)
  rw [text]
  exact ⟨by decide +kernel,by decide +kernel⟩

theorem httpStream_declares : httpStream.Declares [httpListener.declaration] := by
  have text : httpStream = _ := templateFile_spelled (by repeat constructor)
  rw [text]
  exact ⟨by decide +kernel,by decide +kernel⟩

end Templates

/-! ## What the engine reads -/

section Policy
variable {value : Str → Str}

/-- The parts of a policy string are its knobs, where no value has a semicolon. -/
theorem policy_units {knobs : List (String × List (UInt16 ⊕ Str))} (some : knobs ≠ [])
    (named : ∀ entry ∈ knobs, str entry.1 ≠ [] ∧ 0x3B ∉ str entry.1 ∧ 0x3D ∉ str entry.1 ∧ trim (str entry.1) = str entry.1)
    (free : ∀ entry ∈ knobs, 0x3B ∉ fill value entry.2) :
    Core.policy (.some (fill value (policyUnits knobs))) = knobs.map fun entry => (str entry.1,fill value entry.2) := by
  have part (entry : String × List (UInt16 ⊕ Str)) :
      fill value ((str entry.1).map .inl ++ .inl 0x3D::entry.2) = str entry.1 ++ 0x3D::fill value entry.2 := by
    rw [fill_append,fill_literal]
    rfl
  have text : fill value (policyUnits knobs) =
      [0x3B].intercalate (knobs.map fun entry => str entry.1 ++ 0x3D::fill value entry.2) := by
    rw [policyUnits,fill_intercalate,List.map_map]
    exact congrArg _ (List.map_congr_left fun entry _ => part entry)
  rw [Engine.policy_eq,text,List.splitOn_intercalate,List.filterMap_map,← List.filterMap_eq_map]
  · refine List.filterMap_congr fun entry own => ?_
    obtain ⟨filled,_,sign,trimmed⟩ := named entry own
    exact (Engine.assignment_iff entry.1 _ _).mpr ⟨str entry.1,rfl,sign,filled,trimmed⟩
  · intro part' member
    obtain ⟨entry,own,rfl⟩ := List.mem_map.mp member
    have sign : (0x3B : UInt16) ≠ 0x3D := by decide
    simp [sign,(named entry own).2.1,free entry own]
  · simpa using some

end Policy

section Read
variable {sh bash : Interpreter} {path envFile : Str} {deployment : Deployment} {files : List (Str × Str)}

/-- An env file that sets what fits, with no semicolons in knobs, and a port number for each enabled
profile that no other has. -/
structure Deployment.Listening (deployment : Deployment) (sh bash : Interpreter) (path : Str) : Prop where
  fitting : deployment.Fitting
  single : ∀ listener ∈ listeners, ∀ entry ∈ listener.knobs, ∀ k, Sum.inr k ∈ entry.2 →
    ∀ v, last (entries deployment.lines) k = some v → 0x3B ∉ v
  ports : ∀ listener ∈ listeners, listener.profile ∈ deployment.words bash →
    ∃ port : UInt16, deployment.value sh path listener.port = natText port.toNat
  apart : ∀ listener ∈ listeners, listener.profile ∈ deployment.words bash → ∀ other ∈ listeners,
    other.profile ∈ deployment.words bash →
    deployment.value sh path listener.port = deployment.value sh path other.port → listener = other

theorem listeners_named : ∀ listener ∈ listeners, listener.knobs ≠ [] ∧ ∀ entry ∈ listener.knobs,
    str entry.1 ≠ [] ∧ 0x3B ∉ str entry.1 ∧ 0x3D ∉ str entry.1 ∧ trim (str entry.1) = str entry.1 := by
  decide +kernel

theorem presets_single : ∀ part ∈ sections, ∀ row ∈ part.2, ∀ v ∈ [row.strict,row.default,row.loose], 0x3B ∉ str v := by
  decide +kernel

theorem knobs_literal : ∀ listener ∈ listeners, ∀ entry ∈ listener.knobs, ∀ u ∈ entry.2, u ≠ .inl 0x3B := by
  decide +kernel

theorem knob_single (listening : deployment.Listening sh bash path) {listener : Listener} (own : listener ∈ listeners)
    {entry : String × List (UInt16 ⊕ Str)} (member : entry ∈ listener.knobs) : 0x3B ∉ fill (deployment.value sh path) entry.2 := by
  intro inside
  obtain ⟨u,within,part⟩ := List.mem_flatMap.mp inside
  cases u with
  | inl u =>
    obtain rfl := List.mem_singleton.mp part
    exact knobs_literal listener own entry member _ within rfl
  | inr k =>
    have stop : (0x3B : UInt16) ∈ deployment.value sh path k := part
    rcases value_cases deployment path k with empty | set | ⟨section',known,row,held,v,level,same⟩
    · rw [empty] at stop
      cases stop
    · exact listening.single listener own entry member k within _ set stop
    · rw [same] at stop
      exact presets_single section' known row held v level stop

theorem digit_unblank {u : UInt16} (digit : isDigit u = true) : nginx.kind u ≠ .blank := by
  have other {v : UInt16} (apart : isDigit v = false) : u ≠ v := by
    rintro rfl
    rw [digit] at apart
    cases apart
  have plain : nginx.kind u = .plain := by
    simp only [nginx,other (v := 0x20) rfl,other (v := 0x09) rfl,other (v := 0x0D) rfl,other (v := 0x0A) rfl,
      other (v := 0x3B) rfl,other (v := 0x7B) rfl,other (v := 0x7D) rfl,other (v := 0x29) rfl,other (v := 0x23) rfl,
      other (v := 0x5C) rfl,other (v := 0x27) rfl,other (v := 0x22) rfl,other (v := 0x24) rfl,or_self,if_false]
  rw [plain]
  decide

/-- With values, a template declares its declarations with the values. -/
theorem Template.Declares.filled {template : Template} {all : List (List (UInt16 ⊕ Str) × List (UInt16 ⊕ Str))}
    (declares : template.Declares all) {value : Str → Str}
    (free : ∀ pair ∈ all, ∀ k, Sum.inr k ∈ pair.1 → ∀ u ∈ value k, nginx.kind u ≠ .blank) :
    (template.items.map (Item.fill nginx value)).filterMap (arguments jsVar) =
      all.map fun pair => (fill value pair.1,fill value pair.2) := by
  rw [← declares.declares,List.filterMap_map,List.map_filterMap]
  refine List.filterMap_congr fun item own => ?_
  refine arguments_fill (declares.settled item own) fun argument other found => free (argument,other) ?_
  rw [← declares.declares]
  exact List.mem_filterMap.mpr ⟨item,own,found⟩

/-- The stream stage of a profile declares its listener, and the others of its files nothing that counts. -/
theorem profileParts_declare {part : (Str × List Row) × List Template} (own : part ∈ profileParts) :
    ∃ listener ∈ listeners, listener.profile = part.1.1 ∧
      (∃ template ∈ part.2, (str ".stream").isSuffixOf template.name = true) ∧
      ∀ template ∈ part.2, (str ".stream").isSuffixOf template.name = true → template.Declares [listener.declaration] := by
  simp only [profileParts,List.mem_cons,List.not_mem_nil,or_false] at own
  rcases own with rfl | rfl | rfl
  · refine ⟨strfryListener,by simp [listeners],rfl,⟨strfryWsStream,by simp,by decide⟩,?_⟩
    simp only [List.forall_mem_cons,List.not_mem_nil,false_implies,implies_true,and_true]
    exact ⟨fun stream => absurd stream (by decide),fun _ => strfryWsStream_declares⟩
  · refine ⟨tcpListener,by simp [listeners],rfl,⟨tcpStream,by simp,by decide⟩,?_⟩
    simp only [List.forall_mem_cons,List.not_mem_nil,false_implies,implies_true,and_true]
    exact fun _ => tcpStream_declares
  · refine ⟨httpListener,by simp [listeners],rfl,⟨httpStream,by simp,by decide⟩,?_⟩
    simp only [List.forall_mem_cons,List.not_mem_nil,false_implies,implies_true,and_true]
    exact ⟨fun _ => httpStream_declares,fun stream => absurd stream (by decide)⟩

theorem listeners_profile {listener other : Listener} (own : listener ∈ listeners) (own' : other ∈ listeners)
    (same : listener.profile = other.profile) : listener = other := by
  have apart : (listeners.map Listener.profile).Nodup := by decide
  exact List.inj_on_of_nodup_map apart own own' same

section Declared
variable (renders : deployment.render sh bash path envFile = .ok files) (listening : deployment.Listening sh bash path)
include renders listening

/-- The stream files declare two variables of core, and a policy for each enabled profile. -/
theorem mem_declared {pair : Str × Str} : pair ∈ declared files ↔
    pair ∈ [(str "$shield_verdict",[]),(str "$shield_service",[])] ∨
      ∃ listener ∈ listeners, listener.profile ∈ deployment.words bash ∧ pair =
        (policyName ++ deployment.value sh path listener.port,fill (deployment.value sh path) (policyUnits listener.knobs)) := by
  obtain ⟨text,rfl,reads⟩ := rendered_files renders listening.fitting
  have core : shieldCoreConf ∈ shippedCheckout.core ∧ shieldCoreStream ∈ shippedCheckout.core := by simp [shippedCheckout]
  have central : (shieldCoreStream.items.map (Item.fill nginx (deployment.value sh path))).filterMap (arguments jsVar) =
      [(str "$shield_verdict",[]),(str "$shield_service",[])] := by
    rw [shieldCoreStream_declares.filled]
    · simp only [List.map_cons,List.map_nil,fill_literal]
      rfl
    · intro pair own k inside
      rcases List.mem_cons.mp own with rfl | own
      · simp at inside
      · obtain rfl := List.mem_singleton.mp own
        simp at inside
  have profile {listener : Listener} (own : listener ∈ listeners) (enabled : listener.profile ∈ deployment.words bash)
      {template : Template} (declares : template.Declares [listener.declaration]) :
      (template.items.map (Item.fill nginx (deployment.value sh path))).filterMap (arguments jsVar) =
        [(policyName ++ deployment.value sh path listener.port,fill (deployment.value sh path) (policyUnits listener.knobs))] := by
    rw [declares.filled]
    · simp [Listener.declaration,fill_literal]
    · intro pair member k inside u within
      obtain rfl := List.mem_singleton.mp member
      have key : k = listener.port := by simpa [Listener.declaration] using inside
      obtain ⟨port,value⟩ := listening.ports listener own enabled
      rw [key,value] at within
      exact digit_unblank (natText_digits _ u within)
  have member : pair ∈ declared ((selected shippedCheckout (deployment.words bash)).map fun template =>
      (template.name,text template)) ↔ ∃ template ∈ selected shippedCheckout (deployment.words bash),
        (str ".stream").isSuffixOf template.name = true ∧
          pair ∈ (template.items.map (Item.fill nginx (deployment.value sh path))).filterMap (arguments jsVar) := by
    rw [declared,streamItems,List.filter_map,List.flatMap_map,List.filterMap_flatMap,List.mem_flatMap]
    refine exists_congr fun template => ?_
    rw [List.mem_filter,and_assoc]
    refine and_congr_right fun own => and_congr_right fun _ => ?_
    rw [reads template own,Option.getD_some]
  rw [member]
  constructor
  · rintro ⟨template,own,stream,inside⟩
    rcases mem_selected.mp own with own | ⟨part,known,enabled,within⟩
    · rcases List.mem_cons.mp own with rfl | own
      · exact absurd stream (by decide)
      · obtain rfl := List.mem_singleton.mp own
        exact Or.inl (central ▸ inside)
    · obtain ⟨listener,own',same,_,declares⟩ := profileParts_declare known
      rw [profile own' (same ▸ enabled) (declares template within stream)] at inside
      exact Or.inr ⟨listener,own',same ▸ enabled,List.mem_singleton.mp inside⟩
  · rintro (inside | ⟨listener,own,enabled,rfl⟩)
    · exact ⟨shieldCoreStream,mem_selected.mpr (Or.inl core.2),by decide,central ▸ inside⟩
    · obtain ⟨templates,found⟩ := Option.isSome_iff_exists.mp ((render_valid renders).2 _ enabled)
      obtain ⟨part,known,name,_⟩ := checkout_profile.mp found
      obtain ⟨listener',own',same,⟨template,within,stream⟩,declares⟩ := profileParts_declare known
      obtain rfl := listeners_profile own own' (name.symm.trans same.symm)
      refine ⟨template,mem_selected.mpr (Or.inr ⟨part,known,name ▸ enabled,within⟩),stream,?_⟩
      rw [profile own enabled (declares template within stream)]
      exact List.mem_singleton_self _

section Listening
variable {listener : Listener} (own : listener ∈ listeners) (enabled : listener.profile ∈ deployment.words bash)
  {port : UInt16} (listens : deployment.value sh path listener.port = natText port.toNat)
include own enabled listens

theorem policies_listener : policies files port = some (fill (deployment.value sh path) (policyUnits listener.knobs)) := by
  have outside (name : Str) (other : policyName.isPrefixOf name = false) : name ≠ policyName ++ natText port.toNat := by
    rintro rfl
    rw [List.isPrefixOf_iff_prefix.mpr (List.prefix_append _ _)] at other
    cases other
  refine last_only ((mem_declared renders listening).mpr (Or.inr ⟨listener,own,enabled,by rw [listens]⟩)) fun w inside => ?_
  rcases (mem_declared renders listening).mp inside with central | ⟨other,own',enabled',same⟩
  · rcases List.mem_cons.mp central with same | same
    · exact absurd (congrArg Prod.fst same).symm (outside _ (by decide))
    · exact absurd (congrArg Prod.fst (List.mem_singleton.mp same)).symm (outside _ (by decide))
  · have port' : natText port.toNat = deployment.value sh path other.port := List.append_cancel_left (congrArg Prod.fst same)
    obtain rfl := listening.apart listener own enabled other own' enabled' (listens.trans port')
    exact congrArg Prod.snd same

theorem policy_listener : Core.policy (policies files port) = listener.policy (deployment.value sh path) := by
  obtain ⟨filled,named⟩ := listeners_named listener own
  rw [policies_listener renders listening own enabled listens]
  exact policy_units filled named fun entry member => knob_single listening own member

end Listening

end Declared

theorem listeners_once : ∀ listener ∈ listeners, (listener.knobs.map fun entry => str entry.1).Nodup := by decide +kernel

/-- A knob is what the policy has for it. -/
theorem lookup_policy {listener : Listener} (own : listener ∈ listeners) {name : String} {units : List (UInt16 ⊕ Str)}
    (knob : (name,units) ∈ listener.knobs) (value : Str → Str) :
    Core.lookup (listener.policy value) name = some (fill value units) := by
  have once := listeners_once listener own
  have held : last (listener.policy value) (str name) = some (fill value units) := by
    refine last_only (List.mem_map_of_mem knob) fun w inside => ?_
    obtain ⟨entry,member,same⟩ := List.mem_map.mp inside
    obtain rfl := List.inj_on_of_nodup_map once member knob (congrArg Prod.fst same)
    exact (congrArg Prod.snd same).symm
  rw [Core.lookup,← held,last]
  congr 2
  funext entry
  exact beq_eq_decide _ _

theorem lookupOr_some {policy : List (Str × Str)} {key dflt : String} {v : Str} (found : Core.lookup policy key = some v) :
    Core.lookupOr policy key dflt = if v = [] then str dflt else v := by
  rw [Core.lookupOr,found]
  cases v <;> rfl

theorem given_or_empty (v : Str) : (if v = [] then str "" else v) = v := by
  split_ifs with empty
  · rw [empty]
    rfl
  · rfl

theorem fill_single (value : Str → Str) (k : Str) : fill value [.inr k] = value k := fill_variable value k

end Read

/-- What `access` takes from a policy, in terms of the values in force. -/
def Listener.accessCfg (listener : Listener) (value : Str → Str) : Access.AccessCfg :=
  let service := fill value listener.service
  { service := if service = [] then str "unknown" else service
    banFile := value (str "SHIELD_BAN_FILE")
    connRate := Core.num (some (value listener.rate)) 0
    connWindow := Core.num (some (value (str "SHIELD_CONN_WINDOW"))) 60 }

/-- What the websocket filter takes from its policy, in terms of the values in force. -/
def websocketCfg (value : Str → Str) (now : Nat → Int) : Engine.Cfg :=
  let given key dflt := Core.num (some (value (str key))) dflt
  { service := str "strfry"
    banFile := value (str "SHIELD_BAN_FILE")
    banRecheck := given "SHIELD_BAN_RECHECK" 10
    maxMsg := given "SHIELD_WS_MAX_MSG" 131072
    maxSubs := given "SHIELD_WS_MAX_SUBS" 20
    maxFilters := given "SHIELD_WS_MAX_FILTERS" 10
    maxFilterItems := given "SHIELD_WS_MAX_FILTER_ITEMS" 500
    maxLimit := given "SHIELD_WS_MAX_LIMIT" 5000
    maxFilterValue := given "SHIELD_WS_MAX_FILTER_VALUE" 512
    requireNarrowing := value (str "SHIELD_WS_REQUIRE_NARROWING") ≠ str "false"
    maxHsReads := given "SHIELD_WS_MAX_HS_READS" Engine.defaultMaxHsReads
    maxMsgReads := given "SHIELD_WS_MAX_MSG_READS"
      (Number.ceil (given "SHIELD_WS_MAX_MSG" 131072 * .fin (1 / 1024)) + Engine.minMsgReads)
    bMsg := Engine.bucket (given "SHIELD_WS_MSG_RATE" 20) (given "SHIELD_WS_MSG_BURST" 100) (now 0)
    bEvent := Engine.bucket (given "SHIELD_WS_EVENT_RATE" 5) (given "SHIELD_WS_EVENT_BURST" 50) (now 1)
    bReq := Engine.bucket (given "SHIELD_WS_REQ_RATE" 5) (given "SHIELD_WS_REQ_BURST" 20) (now 2)
    types := Core.keyset (some (value (str "SHIELD_NOSTR_TYPES"))) (str Engine.defaultTypes)
    kindDeny := Core.keyset (some (value (str "SHIELD_NOSTR_KIND_DENY"))) [] }

theorem listeners_access : ∀ listener ∈ listeners, ("service",listener.service) ∈ listener.knobs ∧
    knob "ban_file" "SHIELD_BAN_FILE" ∈ listener.knobs ∧ ("conn_rate",[.inr listener.rate]) ∈ listener.knobs ∧
    knob "conn_window" "SHIELD_CONN_WINDOW" ∈ listener.knobs := by
  simp [listeners,strfryListener,tcpListener,httpListener,knob]

/-- On the port of an enabled profile the engine admits connections by the values in force: the
preset's at the profile's level, but for what the env file sets. -/
theorem access_config (sh bash : Interpreter) (path envFile : Str) (deployment : Deployment) (files : List (Str × Str))
    (renders : deployment.render sh bash path envFile = .ok files) (listening : deployment.Listening sh bash path)
    (listener : Listener) (own : listener ∈ listeners) (enabled : listener.profile ∈ deployment.words bash)
    (port : UInt16) (listens : deployment.value sh path listener.port = natText port.toNat) :
    Access.accessCfg (policies files port) = listener.accessCfg (deployment.value sh path) := by
  have policy := policy_listener renders listening own enabled listens
  obtain ⟨service,banFile,rate,window⟩ := listeners_access listener own
  have values {name : String} {units : List (UInt16 ⊕ Str)} (held : (name,units) ∈ listener.knobs) :=
    lookup_policy own held (deployment.value sh path)
  have file := given_or_empty (deployment.value sh path (str "SHIELD_BAN_FILE"))
  simp only [Access.accessCfg,Listener.accessCfg,policy,lookupOr_some (values service),lookupOr_some (values banFile),
    values rate,values window,fill_single,file]

theorem gateway_ports : gateway.value plainShell (str "/presets") strfryListener.port = natText 80 ∧
    gateway.value plainShell (str "/presets") tcpListener.port = natText 2222 := by
  have strfry : (str "strfry",strfryRows) ∈ sections := by simp [sections]
  have tcp : (str "tcp",tcpRows) ∈ sections := by simp [sections]
  have port : (⟨"SHIELD_LISTEN_PORT","80","80","80"⟩ : Row) ∈ strfryRows := List.mem_cons_self
  have port' : (⟨"SHIELD_TCP_LISTEN_PORT","2222","2222","2222"⟩ : Row) ∈ tcpRows := List.mem_cons_of_mem _ List.mem_cons_self
  exact ⟨(gateway_value strfry (by simp) port).trans (by decide +kernel),
    (gateway_value tcp (by simp) port').trans (by decide +kernel)⟩

theorem gateway_words : gateway.words plainShell = [str "strfry",str "tcp"] := by decide +kernel

theorem gateway_listening : gateway.Listening plainShell plainShell (str "/presets") := by
  have free : ∀ entry ∈ entries gateway.lines, 0x3B ∉ entry.2 := by decide +kernel
  have off : httpListener.profile ∉ [str "strfry",str "tcp"] := by decide
  have apart : natText 80 ≠ natText 2222 := by decide
  have known {listener : Listener} (own : listener ∈ listeners) (enabled : listener.profile ∈ gateway.words plainShell) :
      listener = strfryListener ∨ listener = tcpListener := by
    simp only [listeners,List.mem_cons,List.not_mem_nil,or_false] at own
    rcases own with rfl | rfl | rfl
    · exact Or.inl rfl
    · exact Or.inr rfl
    · exact absurd (gateway_words ▸ enabled) off
  refine ⟨gateway_fitting,fun _ _ _ _ k _ v set => free _ (last_mem set),fun listener own enabled => ?_,
    fun listener own enabled other own' enabled' same => ?_⟩
  · rcases known own enabled with rfl | rfl
    · exact ⟨80,gateway_ports.1⟩
    · exact ⟨2222,gateway_ports.2⟩
  · rcases known own enabled with rfl | rfl <;> rcases known own' enabled' with rfl | rfl
    · rfl
    · exact absurd (gateway_ports.1.symm.trans (same.trans gateway_ports.2)) apart
    · exact absurd (gateway_ports.1.symm.trans (same.symm.trans gateway_ports.2)) apart
    · rfl

theorem access_config_gateway : ∃ files, gateway.render plainShell plainShell (str "/presets") (str "shield.env") = .ok files ∧
    (Access.accessCfg (policies files 2222)).connRate = 7 := by
  obtain ⟨files,renders⟩ := gateway_renders
  have enabled : tcpListener.profile ∈ gateway.words plainShell := gateway_words ▸ by decide
  have tcp : (str "tcp",tcpRows) ∈ sections := by simp [sections]
  have rate : (⟨"SHIELD_TCP_CONN_RATE","5","10","30"⟩ : Row) ∈ tcpRows := by simp [tcpRows]
  have given : last (entries gateway.lines) (str "SHIELD_TCP_CONN_RATE") = some (str "7") := by decide +kernel
  refine ⟨files,renders,?_⟩
  rw [access_config _ _ _ _ _ _ renders gateway_listening tcpListener (by simp [listeners]) enabled 2222 gateway_ports.2]
  simp only [Listener.accessCfg,tcpListener,gateway_value tcp (by simp) rate,given]
  decide +kernel

/-- On the port of the strfry profile the websocket filter limits by the values in force. -/
theorem websocket_config (sh bash : Interpreter) (path envFile : Str) (deployment : Deployment) (files : List (Str × Str))
    (renders : deployment.render sh bash path envFile = .ok files) (listening : deployment.Listening sh bash path)
    (enabled : str "strfry" ∈ deployment.words bash) (env : Engine.Env) (port : UInt16)
    (listens : deployment.value sh path (str "SHIELD_LISTEN_PORT") = natText port.toNat)
    (policy : env.policy = policies files port) :
    Engine.readCfg env = websocketCfg (deployment.value sh path) env.now := by
  have own : strfryListener ∈ listeners := by simp [listeners]
  have read := policy_listener renders listening own enabled listens
  have knobs : ∀ names ∈ [("ban_file","SHIELD_BAN_FILE"),("ban_recheck","SHIELD_BAN_RECHECK"),("ws_max_msg","SHIELD_WS_MAX_MSG"),
      ("ws_max_subs","SHIELD_WS_MAX_SUBS"),("ws_max_filters","SHIELD_WS_MAX_FILTERS"),
      ("ws_max_filter_items","SHIELD_WS_MAX_FILTER_ITEMS"),("ws_max_hs_reads","SHIELD_WS_MAX_HS_READS"),
      ("ws_max_msg_reads","SHIELD_WS_MAX_MSG_READS"),("ws_max_limit","SHIELD_WS_MAX_LIMIT"),
      ("ws_max_filter_value","SHIELD_WS_MAX_FILTER_VALUE"),("ws_require_narrowing","SHIELD_WS_REQUIRE_NARROWING"),
      ("ws_msg_rate","SHIELD_WS_MSG_RATE"),("ws_msg_burst","SHIELD_WS_MSG_BURST"),("ws_event_rate","SHIELD_WS_EVENT_RATE"),
      ("ws_event_burst","SHIELD_WS_EVENT_BURST"),("ws_req_rate","SHIELD_WS_REQ_RATE"),("ws_req_burst","SHIELD_WS_REQ_BURST"),
      ("nostr_types","SHIELD_NOSTR_TYPES"),("nostr_kind_deny","SHIELD_NOSTR_KIND_DENY")],
      knob names.1 names.2 ∈ strfryListener.knobs := by
    simp [strfryListener,knob]
  have values := fun names held => lookup_policy own (knobs names held) (deployment.value sh path)
  simp only [List.forall_mem_cons,List.not_mem_nil,false_implies,implies_true,and_true,fill_single] at values
  have service : Core.lookup (strfryListener.policy (deployment.value sh path)) "service" = some (str "strfry") := by
    rw [lookup_policy own (listeners_access _ own).1]
    exact congrArg some (fill_literal _ _)
  have named : str "strfry" ≠ [] := by decide
  have narrowing : (some (deployment.value sh path (str "SHIELD_WS_REQUIRE_NARROWING")) != some (str "false")) =
      decide (deployment.value sh path (str "SHIELD_WS_REQUIRE_NARROWING") ≠ str "false") := by
    rw [bne,Option.some_beq_some,beq_eq_decide,← decide_not]
  simp only [Engine.readCfg,policy,read,lookupOr_some service,if_neg named,values,lookupOr_some values.1,given_or_empty,
    narrowing,websocketCfg]

theorem websocket_config_gateway : ∃ files, gateway.render plainShell plainShell (str "/presets") (str "shield.env") = .ok files ∧
    (Engine.readCfg ⟨policies files 80,str "fd00::2",fun _ => 0,fun _ => .ok false⟩).maxSubs = 25 := by
  obtain ⟨files,renders⟩ := gateway_renders
  have enabled : str "strfry" ∈ gateway.words plainShell := gateway_words ▸ by decide
  have config := websocket_config _ _ _ _ _ _ renders gateway_listening enabled
    ⟨policies files 80,str "fd00::2",fun _ => 0,fun _ => .ok false⟩ 80 gateway_ports.1 rfl
  have strfry : (str "strfry",strfryRows) ∈ sections := by simp [sections]
  have subs : (⟨"SHIELD_WS_MAX_SUBS","25","50","100"⟩ : Row) ∈ strfryRows := by simp [strfryRows]
  have unset : last (entries gateway.lines) (str "SHIELD_WS_MAX_SUBS") = none := by decide +kernel
  refine ⟨files,renders,?_⟩
  rw [config,websocketCfg]
  simp only [gateway_value strfry (by simp) subs,unset]
  decide +kernel

end FipsShield.Config
