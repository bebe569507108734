import FipsShield.Config.ActionEnv
import FipsShield.Config.Jails
import FipsShield.Config.Profiles
import FipsShield.Library.Directives

/-! The nginx configuration that `deploy/host/render.sh` renders from the templates of core and of
the enabled profiles: no value of the environment changes its directives, only the words in them. -/
namespace FipsShield.Config
open Text Lines Banlist Directives Numeral

/-! ## Rendering -/

/-- A template, under the name of the file that is rendered from it. -/
structure Template where
  name : Str
  text : Str

/-- The templates of a checkout. -/
structure Checkout where
  core : List Template
  profile : Str → Option (List Template)

def isKeyUnit (u : UInt16) : Bool := (0x41 ≤ u && u ≤ 0x5A) || isDigit u || u == 0x5F

/-- What `grep -o '\$\{SHIELD_[A-Z0-9_]+\}'` finds at a `$`, of which `tr` leaves the key. -/
def placeholder (piece : Str) : Option Str :=
  match piece with
  | 0x7B::rest =>
    let key := rest.takeWhile isKeyUnit
    if (str "SHIELD_").isPrefixOf key && (str "SHIELD_").length < key.length && (rest.dropWhile isKeyUnit).head? == some 0x7D then
      some key
    else none
  | _ => none

def placeholdersIn (text : Str) : List Str := (text.splitOnP fun u => u == 0x24).tail.filterMap placeholder

/-- `sort -u` of the placeholders of some templates. -/
def templateVars (templates : List Template) : List Str :=
  (sorted (templates.flatMap fun template => placeholdersIn template.text)).dedup

def selected (checkout : Checkout) (profiles : List Str) : List Template :=
  checkout.core ++ profiles.flatMap fun name => (checkout.profile name).getD []

/-- The complaint about a placeholder that is not set. -/
def unsetLine (envFile v : Str) : Str := str "error: " ++ v ++ str " is not set in " ++ envFile ++ str "\n"

/-- The files that `render.sh` renders, or why it does not. -/
def renderTemplates (envFile : Str) (env : Environment) (templates : List Template) : Except Str (List (Str × Str)) :=
  let vars := templateVars templates
  let missing := vars.filter fun v => (env.lookup v).isNone
  if missing = [] then .ok (templates.map fun template => (template.name,envsubst vars env template.text))
  else .error (missing.flatMap (unsetLine envFile))

def renderSh (sh bash : Interpreter) (checkout : Checkout) (presets : Presets) (ambient : Environment)
    (envFile custom : Str) : Except Str (List (Str × Str)) := do
  let profiles ← renderProfiles sh bash (fun name => (checkout.profile name).isSome) presets ambient custom
  let resolved ← resolve sh presets true custom
  let env ← evaluate bash ambient (captured resolved)
  renderTemplates envFile env (selected checkout profiles)

/-! ## The templates of the repository -/

def templateFile (name : String) (lines : List String) : Template := ⟨str name,written 0x0A (lines.map str)⟩

/-- `core/nginx/00-shield-core.conf.template`, without its comments. -/
def shieldCoreConf : Template := templateFile "00-shield-core.conf"
  ["log_format shield_json escape=json",
    "    '\x7b'",
    "    '\"ts\":\"$time_iso8601\",'",
    "    '\"src\":\"$remote_addr\",'",
    "    '\"status\":$status,'",
    "    '\"request\":\"$request\",'",
    "    '\"host\":\"$host\",'",
    "    '\"upgrade\":\"$http_upgrade\",'",
    "    '\"bytes_in\":$request_length,'",
    "    '\"bytes_out\":$bytes_sent,'",
    "    '\"duration\":$request_time,'",
    "    '\"conn\":$connection,'",
    "    '\"conn_reqs\":$connection_requests,'",
    "    '\"limited\":\"$limit_req_status\",'",
    "    '\"ua\":\"$http_user_agent\"'",
    "    '\x7d';",
    "map $http_upgrade $shield_connection_upgrade \x7b",
    "    default upgrade;",
    "    ''      close;",
    "\x7d",
    "limit_req_zone  $binary_remote_addr zone=shield_handshake:${SHIELD_HANDSHAKE_ZONE_SIZE} rate=${SHIELD_HANDSHAKE_RATE};",
    "limit_req_status  429;",
    "limit_conn_status 429;"]

/-- `core/nginx/05-shield-core.stream.template`, without its comments. -/
def shieldCoreStream : Template := templateFile "05-shield-core.stream"
  ["js_path \"/etc/nginx/njs/\";",
    "js_import shield_core from shield_core.js;",
    "js_import shield_ws from shield_ws.js;",
    "js_var $shield_verdict '';",
    "js_var $shield_service '';",
    "js_shared_dict_zone zone=shield_connrate:${SHIELD_CONNRATE_ZONE_SIZE} timeout=${SHIELD_CONNRATE_TIMEOUT} type=number evict;",
    "log_format shield_stream_json escape=json",
    "    '\x7b'",
    "    '\"ts\":\"$time_iso8601\",'",
    "    '\"src\":\"$remote_addr\",'",
    "    '\"service\":\"$shield_service\",'",
    "    '\"status\":$status,'",
    "    '\"bytes_in\":$bytes_received,'",
    "    '\"bytes_out\":$bytes_sent,'",
    "    '\"duration\":$session_time,'",
    "    '\"verdict\":\"$shield_verdict\"'",
    "    '\x7d';"]

/-- `profiles/strfry/10-strfry.conf.template`, without its comments. -/
def strfryConf : Template := templateFile "10-strfry.conf"
  ["limit_conn_zone $binary_remote_addr zone=shield_strfry_conn:${SHIELD_CONN_ZONE_SIZE};",
    "server \x7b",
    "    listen unix:${SHIELD_SOCKET_DIR}/strfry.sock proxy_protocol;",
    "    server_name ${SHIELD_SERVER_NAME};",
    "    set_real_ip_from unix:;",
    "    real_ip_header proxy_protocol;",
    "    access_log /var/log/nginx/shield-strfry.access.log shield_json;",
    "    client_max_body_size 4k;",
    "    client_header_timeout 10s;",
    "    client_body_timeout 10s;",
    "    large_client_header_buffers 2 8k;",
    "    keepalive_timeout 0;",
    "    limit_conn shield_strfry_conn ${SHIELD_MAX_CONNS_PER_NODE};",
    "    location = / \x7b",
    "        limit_req zone=shield_handshake burst=${SHIELD_HANDSHAKE_BURST} nodelay;",
    "        if ($request_method != GET) \x7b",
    "            return 405;",
    "        \x7d",
    "        proxy_pass http://${SHIELD_UPSTREAM};",
    "        proxy_http_version 1.1;",
    "        proxy_set_header Upgrade $http_upgrade;",
    "        proxy_set_header Connection $shield_connection_upgrade;",
    "        proxy_set_header Host $host;",
    "        proxy_set_header Sec-WebSocket-Extensions \"\";",
    "        proxy_set_header X-Forwarded-For $remote_addr;",
    "        proxy_connect_timeout 5s;",
    "        proxy_send_timeout ${SHIELD_WS_IDLE_TIMEOUT};",
    "        proxy_read_timeout ${SHIELD_WS_IDLE_TIMEOUT};",
    "        proxy_buffering off;",
    "    \x7d",
    "    location / \x7b",
    "        return 444;",
    "    \x7d",
    "\x7d"]

/-- `profiles/strfry/20-strfry-ws.stream.template`, without its comments. -/
def strfryWsStream : Template := templateFile "20-strfry-ws.stream"
  ["limit_conn_zone $binary_remote_addr zone=shield_strfry_stream_conn:${SHIELD_CONN_ZONE_SIZE};",
    "server \x7b",
    "    listen [${SHIELD_BIND_ADDR}]:${SHIELD_LISTEN_PORT};",
    "    access_log /var/log/nginx/shield-strfry.stream.log shield_stream_json;",
    "    error_log /var/log/nginx/shield-error.log warn;",
    "    js_var $shield_cfg_${SHIELD_LISTEN_PORT} 'service=strfry;ban_file=${SHIELD_BAN_FILE};ban_recheck=${SHIELD_BAN_RECHECK};conn_rate=${SHIELD_STRFRY_CONN_RATE};conn_window=${SHIELD_CONN_WINDOW};ws_max_msg=${SHIELD_WS_MAX_MSG};ws_max_subs=${SHIELD_WS_MAX_SUBS};ws_max_filters=${SHIELD_WS_MAX_FILTERS};ws_max_filter_items=${SHIELD_WS_MAX_FILTER_ITEMS};ws_max_hs_reads=${SHIELD_WS_MAX_HS_READS};ws_max_msg_reads=${SHIELD_WS_MAX_MSG_READS};ws_max_limit=${SHIELD_WS_MAX_LIMIT};ws_max_filter_value=${SHIELD_WS_MAX_FILTER_VALUE};ws_require_narrowing=${SHIELD_WS_REQUIRE_NARROWING};ws_msg_rate=${SHIELD_WS_MSG_RATE};ws_msg_burst=${SHIELD_WS_MSG_BURST};ws_event_rate=${SHIELD_WS_EVENT_RATE};ws_event_burst=${SHIELD_WS_EVENT_BURST};ws_req_rate=${SHIELD_WS_REQ_RATE};ws_req_burst=${SHIELD_WS_REQ_BURST};nostr_types=${SHIELD_NOSTR_TYPES};nostr_kind_deny=${SHIELD_NOSTR_KIND_DENY}';",
    "    js_access shield_core.access;",
    "    js_filter shield_ws.filter;",
    "    limit_conn shield_strfry_stream_conn ${SHIELD_MAX_CONNS_PER_NODE};",
    "    proxy_pass unix:${SHIELD_SOCKET_DIR}/strfry.sock;",
    "    proxy_protocol on;",
    "    proxy_timeout ${SHIELD_WS_IDLE_TIMEOUT};",
    "\x7d"]

/-- `profiles/tcp/30-tcp.stream.template`, without its comments. -/
def tcpStream : Template := templateFile "30-tcp.stream"
  ["limit_conn_zone $binary_remote_addr zone=shield_tcp_stream_conn:${SHIELD_CONN_ZONE_SIZE};",
    "server \x7b",
    "    listen [${SHIELD_BIND_ADDR}]:${SHIELD_TCP_LISTEN_PORT};",
    "    access_log /var/log/nginx/shield-${SHIELD_TCP_SERVICE}.stream.log shield_stream_json;",
    "    error_log /var/log/nginx/shield-error.log warn;",
    "    js_var $shield_cfg_${SHIELD_TCP_LISTEN_PORT} 'service=${SHIELD_TCP_SERVICE};ban_file=${SHIELD_BAN_FILE};conn_rate=${SHIELD_TCP_CONN_RATE};conn_window=${SHIELD_CONN_WINDOW}';",
    "    js_access shield_core.access;",
    "    limit_conn shield_tcp_stream_conn ${SHIELD_TCP_MAX_CONNS_PER_NODE};",
    "    proxy_pass ${SHIELD_TCP_UPSTREAM};",
    "    proxy_connect_timeout 5s;",
    "    proxy_timeout ${SHIELD_TCP_IDLE_TIMEOUT};",
    "\x7d"]

/-- `profiles/http/40-http.stream.template`, without its comments. -/
def httpStream : Template := templateFile "40-http.stream"
  ["limit_conn_zone $binary_remote_addr zone=shield_http_stream_conn:${SHIELD_CONN_ZONE_SIZE};",
    "server \x7b",
    "    listen [${SHIELD_BIND_ADDR}]:${SHIELD_HTTP_LISTEN_PORT};",
    "    access_log /var/log/nginx/shield-${SHIELD_HTTP_SERVICE}.stream.log shield_stream_json;",
    "    error_log /var/log/nginx/shield-error.log warn;",
    "    js_var $shield_cfg_${SHIELD_HTTP_LISTEN_PORT} 'service=${SHIELD_HTTP_SERVICE};ban_file=${SHIELD_BAN_FILE};conn_rate=${SHIELD_HTTP_CONN_RATE};conn_window=${SHIELD_CONN_WINDOW}';",
    "    js_access shield_core.access;",
    "    limit_conn shield_http_stream_conn ${SHIELD_HTTP_MAX_CONNS_PER_NODE};",
    "    proxy_pass unix:${SHIELD_SOCKET_DIR}/${SHIELD_HTTP_SERVICE}.sock;",
    "    proxy_protocol on;",
    "    proxy_connect_timeout 5s;",
    "    proxy_timeout ${SHIELD_HTTP_IDLE_TIMEOUT};",
    "\x7d"]

/-- `profiles/http/41-http.conf.template`, without its comments. -/
def httpConf : Template := templateFile "41-http.conf"
  ["limit_req_zone $binary_remote_addr zone=shield_http_req:${SHIELD_CONN_ZONE_SIZE} rate=${SHIELD_HTTP_REQ_RATE};",
    "limit_conn_zone $binary_remote_addr zone=shield_http_conn:${SHIELD_CONN_ZONE_SIZE};",
    "map $uri $shield_http_path_ok \x7b",
    "    default 0;",
    "    ~^(${SHIELD_HTTP_PATH_REGEX})$ 1;",
    "\x7d",
    "server \x7b",
    "    listen unix:${SHIELD_SOCKET_DIR}/${SHIELD_HTTP_SERVICE}.sock proxy_protocol;",
    "    server_name ${SHIELD_HTTP_SERVER_NAME};",
    "    set_real_ip_from unix:;",
    "    real_ip_header proxy_protocol;",
    "    access_log /var/log/nginx/shield-${SHIELD_HTTP_SERVICE}.access.log shield_json;",
    "    client_max_body_size ${SHIELD_HTTP_MAX_BODY};",
    "    client_header_timeout 10s;",
    "    client_body_timeout 30s;",
    "    large_client_header_buffers 4 8k;",
    "    keepalive_timeout ${SHIELD_HTTP_IDLE_TIMEOUT};",
    "    keepalive_requests ${SHIELD_HTTP_KEEPALIVE_REQUESTS};",
    "    limit_conn shield_http_conn ${SHIELD_HTTP_MAX_CONNS_PER_NODE};",
    "    location / \x7b",
    "        limit_req zone=shield_http_req burst=${SHIELD_HTTP_REQ_BURST} nodelay;",
    "        limit_except ${SHIELD_HTTP_METHODS} \x7b",
    "            deny all;",
    "        \x7d",
    "        if ($shield_http_path_ok = 0) \x7b",
    "            return 444;",
    "        \x7d",
    "        proxy_pass http://${SHIELD_HTTP_UPSTREAM};",
    "        proxy_http_version 1.1;",
    "        proxy_set_header Upgrade $http_upgrade;",
    "        proxy_set_header Connection $shield_connection_upgrade;",
    "        proxy_set_header Host $host;",
    "        proxy_set_header X-Real-IP $remote_addr;",
    "        proxy_set_header X-Forwarded-For $remote_addr;",
    "        proxy_set_header X-Forwarded-Proto http;",
    "        proxy_connect_timeout 5s;",
    "        proxy_send_timeout ${SHIELD_HTTP_IDLE_TIMEOUT};",
    "        proxy_read_timeout ${SHIELD_HTTP_IDLE_TIMEOUT};",
    "    \x7d",
    "\x7d"]

def shippedCheckout : Checkout where
  core := [shieldCoreConf,shieldCoreStream]
  profile name :=
    if name = str "strfry" then some [strfryConf,strfryWsStream]
    else if name = str "tcp" then some [tcpStream]
    else if name = str "http" then some [httpStream,httpConf]
    else none

/-! ## Variables -/

/-- What follows a `$`, with a variable where `substitute` replaces one. -/
def pieceUnits (names : List Str) (piece : Str) : List (UInt16 ⊕ Str) :=
  match piece with
  | 0x7B::rest =>
    let name := rest.takeWhile isNameUnit
    if isIdentifier name && names.contains name && (rest.dropWhile isNameUnit).head? == some 0x7D then
      .inr name::(rest.dropWhile isNameUnit).tail.map .inl
    else .inl 0x24::piece.map .inl
  | _ =>
    let name := piece.takeWhile isNameUnit
    if isIdentifier name && names.contains name then .inr name::(piece.dropWhile isNameUnit).map .inl
    else .inl 0x24::piece.map .inl

/-- A text with the variables that `envsubst` replaces in it. -/
def templateUnits (names : List Str) (text : Str) : List (UInt16 ⊕ Str) :=
  match text.splitOnP fun u => u == 0x24 with
  | [] => []
  | first::pieces => first.map .inl ++ pieces.flatMap (pieceUnits names)

/-- What `nginx` makes of the units of its configuration. -/
def nginx : Alphabet UInt16 where
  kind u :=
    if u = 0x20 ∨ u = 0x09 ∨ u = 0x0D then .blank
    else if u = 0x0A then .newline
    else if u = 0x3B then .stop
    else if u = 0x7B then .opens
    else if u = 0x7D then .closes
    else if u = 0x29 then .paren
    else if u = 0x23 then .comment
    else if u = 0x5C then .escape
    else if u = 0x27 then .single
    else if u = 0x22 then .double
    else if u = 0x24 then .dollar
    else .plain
  short u :=
    if u = 0x22 ∨ u = 0x27 ∨ u = 0x5C then [u]
    else if u = 0x74 then [0x09]
    else if u = 0x72 then [0x0D]
    else if u = 0x6E then [0x0A]
    else [0x5C,u]

/-- The names that a text has after its dollar signs. -/
def pieceName : Str → Str
  | 0x7B::rest => rest.takeWhile isNameUnit
  | piece => piece.takeWhile isNameUnit

def dollarNames (text : Str) : List Str := ((text.splitOnP fun u => u == 0x24).tail.map pieceName).filter isIdentifier

/-- A template read as directives, with the variables that `grep` finds in it. -/
def Template.scanned (template : Template) : Option (List (Item (UInt16 ⊕ Str)) × List (Mode × Str)) :=
  scan nginx .initial (templateUnits (placeholdersIn template.text) template.text)

def Template.items (template : Template) : List (Item (UInt16 ⊕ Str)) := (template.scanned.map Prod.fst).getD []

/-- Where a template has which variables. -/
def Template.uses (template : Template) : List (Mode × Str) := (template.scanned.map Prod.snd).getD []

/-- What can be read as directives, and has no names of `SHIELD_` variables but in placeholders. -/
structure Template.Regular (template : Template) : Prop where
  scans : template.scanned.isSome
  braced : ∀ name ∈ dollarNames template.text, shieldKey name = true → name ∈ placeholdersIn template.text

/-! ## Substitution -/

section Substitution
variable {names : List Str} {env : Environment} {text : Str}

theorem substitute_fill (piece : Str) :
    substitute names env piece = fill (fun k => (env.lookup k).getD []) (pieceUnits names piece) := by
  have literal (s : Str) : fill (fun k => (env.lookup k).getD []) (s.map .inl) = s := fill_literal _ s
  have units (name rest : Str) : fill (fun k => (env.lookup k).getD []) (.inr name::rest.map .inl) =
      (env.lookup name).getD [] ++ rest := by
    rw [fill,List.flatMap_cons,← fill,literal]
    rfl
  have plain (s : Str) : fill (fun k => (env.lookup k).getD []) (.inl 0x24::s.map .inl) = 0x24::s := literal (0x24::s)
  by_cases brace : ∃ rest, piece = 0x7B::rest
  · obtain ⟨rest,rfl⟩ := brace
    rw [substitute,pieceUnits]
    split_ifs
    · exact (units _ _).symm
    · exact (plain _).symm
  · have other : ∀ rest, piece = 0x7B::rest → False := fun rest same => brace ⟨rest,same⟩
    rw [substitute,pieceUnits]
    · split_ifs
      · exact (units _ _).symm
      · exact (plain _).symm
    · exact other
    · exact other

/-- Substitution puts the values where the variables are. -/
theorem envsubst_fill (names : List Str) (env : Environment) (text : Str) :
    envsubst names env text = fill (fun k => (env.lookup k).getD []) (templateUnits names text) := by
  rw [envsubst,templateUnits]
  cases text.splitOnP fun u => u == 0x24 with
  | nil => rfl
  | cons first pieces =>
    have each : pieces.flatMap (substitute names env) =
        pieces.flatMap fun piece => fill (fun k => (env.lookup k).getD []) (pieceUnits names piece) :=
      List.flatMap_congr fun piece _ => substitute_fill piece
    simp only [each]
    rw [fill,List.flatMap_append,← fill,← fill,fill_literal,fill,List.flatMap_assoc]
    rfl

theorem pieceUnits_congr {names other : List Str} {piece : Str}
    (same : isIdentifier (pieceName piece) = true → (pieceName piece ∈ names ↔ pieceName piece ∈ other)) :
    pieceUnits names piece = pieceUnits other piece := by
  have chosen {name : Str} (same : isIdentifier name = true → (name ∈ names ↔ name ∈ other)) :
      (isIdentifier name && names.contains name) = (isIdentifier name && other.contains name) := by
    cases named : isIdentifier name with
    | false => rfl
    | true => rw [Bool.true_and,Bool.true_and,Bool.eq_iff_iff,List.contains_iff_mem,List.contains_iff_mem,same named]
  by_cases brace : ∃ rest, piece = 0x7B::rest
  · obtain ⟨rest,rfl⟩ := brace
    rw [pieceName] at same
    rw [pieceUnits,pieceUnits]
    simp only [chosen same]
  · have other : ∀ rest, piece = 0x7B::rest → False := fun rest same => brace ⟨rest,same⟩
    rw [pieceName] at same
    · rw [pieceUnits,pieceUnits]
      · simp only [chosen same]
      · exact other
      · exact other
    · exact other

theorem templateUnits_congr {names other : List Str} (same : ∀ name ∈ dollarNames text, name ∈ names ↔ name ∈ other) :
    templateUnits names text = templateUnits other text := by
  rw [templateUnits,templateUnits]
  cases split : text.splitOnP fun u => u == 0x24 with
  | nil => rfl
  | cons first pieces =>
    have each : pieces.flatMap (pieceUnits names) = pieces.flatMap (pieceUnits other) := by
      refine List.flatMap_congr fun piece own => pieceUnits_congr fun named => same _ ?_
      rw [dollarNames,split,List.tail_cons]
      exact List.mem_filter.mpr ⟨List.mem_map_of_mem own,named⟩
    simp only [each]

theorem placeholder_key {piece key : Str} (found : placeholder piece = some key) : shieldKey key = true := by
  unfold placeholder at found
  split at found
  · simp only [] at found
    split_ifs at found with shape
    obtain rfl := Option.some.inj found
    simp only [Bool.and_eq_true] at shape
    exact shape.1.1
  · cases found

theorem mem_placeholdersIn {v : Str} (own : v ∈ placeholdersIn text) : shieldKey v = true := by
  obtain ⟨piece,_,found⟩ := List.mem_filterMap.mp own
  exact placeholder_key found

theorem mem_templateVars {templates : List Template} {v : Str} :
    v ∈ templateVars templates ↔ ∃ template ∈ templates, v ∈ placeholdersIn template.text := by
  rw [templateVars,List.mem_dedup,sorted,List.mem_insertionSort,List.mem_flatMap]

theorem templateVars_shield {templates : List Template} {v : Str} (own : v ∈ templateVars templates) : shieldKey v = true := by
  obtain ⟨template,_,member⟩ := mem_templateVars.mp own
  exact mem_placeholdersIn member

/-- The variables of a regular template are its own placeholders, whatever else is substituted. -/
theorem Template.Regular.units {template : Template} (regular : template.Regular) {templates : List Template}
    (own : template ∈ templates) :
    templateUnits (templateVars templates) template.text = templateUnits (placeholdersIn template.text) template.text := by
  refine templateUnits_congr fun name member => ⟨fun inside => ?_,fun inside => ?_⟩
  · exact regular.braced name member (templateVars_shield inside)
  · exact mem_templateVars.mpr ⟨template,own,inside⟩

theorem pieceUnits_named {piece : Str} {k : Str} (own : .inr k ∈ pieceUnits names piece) : k ∈ names := by
  have literal (s : Str) : Sum.inr k ∉ s.map (Sum.inl : UInt16 → UInt16 ⊕ Str) := by simp
  have plain (s : Str) : Sum.inr k ∉ (.inl 0x24::s.map .inl : List (UInt16 ⊕ Str)) := literal (0x24::s)
  have chosen {name rest : Str} (listed : names.contains name = true)
      (own : .inr k ∈ (.inr name::rest.map .inl : List (UInt16 ⊕ Str))) : k ∈ names := by
    obtain rfl := Sum.inr.inj ((List.mem_cons.mp own).resolve_right (literal rest))
    exact List.contains_iff_mem.mp listed
  by_cases brace : ∃ rest, piece = 0x7B::rest
  · obtain ⟨rest,rfl⟩ := brace
    rw [pieceUnits] at own
    split_ifs at own with shape
    · simp only [Bool.and_eq_true] at shape
      exact chosen shape.1.2 own
    · exact absurd own (plain _)
  · have other : ∀ rest, piece = 0x7B::rest → False := fun rest same => brace ⟨rest,same⟩
    rw [pieceUnits] at own
    · split_ifs at own with shape
      · simp only [Bool.and_eq_true] at shape
        exact chosen shape.2 own
      · exact absurd own (plain _)
    · exact other

theorem templateUnits_named {k : Str} (own : .inr k ∈ templateUnits names text) : k ∈ names := by
  rw [templateUnits] at own
  cases split : text.splitOnP fun u => u == 0x24 with
  | nil => simp [split] at own
  | cons first pieces =>
    simp only [split,List.mem_append,List.mem_map,reduceCtorEq,and_false,exists_false,false_or,List.mem_flatMap] at own
    obtain ⟨piece,_,inside⟩ := own
    exact pieceUnits_named inside

/-- The directives of a rendered template, with values that fit. -/
theorem Template.Regular.rendered {template : Template} (regular : template.Regular) {templates : List Template}
    (own : template ∈ templates) {env : Environment} {value : Str → Str}
    (same : ∀ k ∈ placeholdersIn template.text, (env.lookup k).getD [] = value k)
    (fits : ∀ use ∈ template.uses, Fits nginx use.1 (value use.2)) :
    Directives.items nginx (envsubst (templateVars templates) env template.text) =
      some (template.items.map (Item.fill nginx value)) := by
  obtain ⟨⟨all,uses⟩,scanned⟩ := Option.isSome_iff_exists.mp regular.scans
  have read : template.items = all ∧ template.uses = uses := by
    rw [Template.items,Template.uses,scanned]
    exact ⟨rfl,rfl⟩
  have values : fill (fun k => (env.lookup k).getD []) (templateUnits (placeholdersIn template.text) template.text) =
      fill value (templateUnits (placeholdersIn template.text) template.text) :=
    fill_congr fun k inside => same k (templateUnits_named inside)
  rw [envsubst_fill,regular.units own,values,read.1]
  exact items_fill scanned (read.2 ▸ fits)

end Substitution

/-! ## The templates of the repository, read -/

def bindAddr : Str := str "SHIELD_BIND_ADDR"

/-- Variables outside of quotes or between single ones, and each of them the address or in the
presets of some scopes. -/
structure Template.Plain (template : Template) (rows : List Row) : Prop extends template.Regular where
  modes : ∀ use ∈ template.uses, use.1 = .gap ∨ use.1 = .bare ∨ use.1 = .single
  known : ∀ k ∈ placeholdersIn template.text, k = bindAddr ∨ ∃ row ∈ rows, str row.key = k

section Plain
variable {template : Template}

/-- Of a literal the kernel has the characters at once, but not those of a string that it computes. -/
theorem templateFile_spelled {name : String} {lines : List String} {spelt : List (List Char)}
    (spelled : List.Forall₂ (fun line chars => line = String.ofList chars) lines spelt) :
    templateFile name lines = ⟨str name,written 0x0A (spelt.map fun chars => chars.flatMap utf16)⟩ := by
  have each : lines.map str = spelt.map fun chars => chars.flatMap utf16 := by
    induction spelled with
    | nil => rfl
    | cons same _ ih => rw [List.map_cons,List.map_cons,ih,same,str,String.toList_ofList]
  rw [templateFile,each]

/-- Whether a template can be read, with its variables in modes that the presets fit. -/
def Template.legible (template : Template) : Bool :=
  template.scanned.any fun read => read.2.all fun use => [Mode.gap,.bare,.single].contains use.1

theorem plain_legible {rows : List Row} (legible : template.legible = true)
    (braced : ∀ name ∈ dollarNames template.text, shieldKey name = true → name ∈ placeholdersIn template.text)
    (known : ∀ k ∈ placeholdersIn template.text, k = bindAddr ∨ ∃ row ∈ rows, str row.key = k) : template.Plain rows := by
  rw [Template.legible] at legible
  obtain ⟨read,scanned,modes⟩ := (Option.any_eq_true _ _).mp legible
  refine ⟨⟨by rw [scanned]; rfl,braced⟩,fun use own => ?_,known⟩
  rw [Template.uses,scanned] at own
  have mode := List.all_eq_true.mp modes use own
  simpa using mode

theorem coreTemplates_plain : ∀ template ∈ shippedCheckout.core,
    template.Plain coreRows ∧ bindAddr ∉ placeholdersIn template.text := by
  have conf : shieldCoreConf = _ := templateFile_spelled (by repeat constructor)
  have stream : shieldCoreStream = _ := templateFile_spelled (by repeat constructor)
  rw [shippedCheckout,conf,stream]
  simp only [List.forall_mem_cons,List.not_mem_nil,false_implies,implies_true,and_true]
  exact ⟨⟨plain_legible (by decide +kernel) (by decide +kernel) (by decide +kernel),by decide +kernel⟩,
    plain_legible (by decide +kernel) (by decide +kernel) (by decide +kernel),by decide +kernel⟩

/-- The stream stage listens at the address, on the port of the profile. -/
theorem strfryTemplates_plain : strfryConf.Plain (coreRows ++ strfryRows) ∧ strfryWsStream.Plain (coreRows ++ strfryRows) ∧
    ∀ k ∈ [bindAddr,str "SHIELD_LISTEN_PORT"], k ∈ placeholdersIn strfryWsStream.text := by
  have conf : strfryConf = _ := templateFile_spelled (by repeat constructor)
  have stream : strfryWsStream = _ := templateFile_spelled (by repeat constructor)
  rw [conf,stream]
  exact ⟨plain_legible (by decide +kernel) (by decide +kernel) (by decide +kernel),
    plain_legible (by decide +kernel) (by decide +kernel) (by decide +kernel),by decide +kernel⟩

theorem tcpTemplates_plain : tcpStream.Plain (coreRows ++ tcpRows) ∧
    ∀ k ∈ [bindAddr,str "SHIELD_TCP_LISTEN_PORT"], k ∈ placeholdersIn tcpStream.text := by
  have stream : tcpStream = _ := templateFile_spelled (by repeat constructor)
  rw [stream]
  exact ⟨plain_legible (by decide +kernel) (by decide +kernel) (by decide +kernel),by decide +kernel⟩

theorem httpTemplates_plain : httpStream.Plain (coreRows ++ httpRows) ∧ httpConf.Plain (coreRows ++ httpRows) ∧
    ∀ k ∈ [bindAddr,str "SHIELD_HTTP_LISTEN_PORT"], k ∈ placeholdersIn httpStream.text := by
  have stream : httpStream = _ := templateFile_spelled (by repeat constructor)
  have conf : httpConf = _ := templateFile_spelled (by repeat constructor)
  rw [stream,conf]
  exact ⟨plain_legible (by decide +kernel) (by decide +kernel) (by decide +kernel),
    plain_legible (by decide +kernel) (by decide +kernel) (by decide +kernel),by decide +kernel⟩

/-- Every preset fits wherever a template has it. -/
theorem rows_fit : ∀ part ∈ sections, ∀ row ∈ part.2, ∀ v ∈ [row.strict,row.default,row.loose],
    Fits nginx .bare (str v) ∧ Fits nginx .single (str v) := by
  decide +kernel

end Plain

end FipsShield.Config
