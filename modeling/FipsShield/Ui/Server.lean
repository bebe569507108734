import FipsShield.Library.Reply
import FipsShield.Ui.Collect
import FipsShield.Ui.Http
import FipsShield.Ui.Services

/-! What the dashboard answers to a connection (`ui/src/main.rs`, with `bans` and the JSON texts
of `ui/src/collect.rs` and the responses of `ui/src/http.rs`). -/
namespace FipsShield.Ui
open Text Lines Banlist Config Numeral

/-! ## The host -/

/-- The paths that the dashboard was started with. -/
structure Args where
  envFile : Option Bytes
  logDir : Bytes
  shieldConfig : Bytes
  shieldBan : Bytes
  fipsGuard : Bytes

inductive ErrorKind where
  | notFound
  | other
  deriving DecidableEq

/-- What the host answers while a request is served; the clock is read at most twice. -/
structure Host where
  spawn : Str → List Str → Except Str Output
  openFile : Bytes → Except ErrorKind Bytes
  there : Bytes → Bool
  now : UInt64
  later : UInt64

/-- `Path::to_str`. -/
def toStr (path : Bytes) : Option Str := (fromUtf8 path).map Text.toString

/-- `Path::display`. -/
def display (path : Bytes) : Str := fromUtf8Lossy path

/-! ## The commands -/

def showArgs (envFile : Option Bytes) : List Str :=
  match envFile.bind toStr with
  | some f => [str "show",str "--porcelain",str "-f",f]
  | none => [str "show",str "--porcelain"]

/-- `State::config`. -/
def Args.config (args : Args) (host : Host) : Except Str (List Report) :=
  configLoad (toStr args.shieldConfig) (host.spawn ((toStr args.shieldConfig).getD []) (showArgs args.envFile))

/-- `str::parse` of a number below a bound, with or without a plus sign. -/
def parseBelow (bound : Nat) (s : Str) : Option Nat :=
  let digits := if s.head? = some 0x2B then s.tail else s
  if digits = [] then none
  else digits.foldlM (fun value u =>
    if isDigit u ∧ value * 10 + (u.toNat - 0x30) < bound then some (value * 10 + (u.toNat - 0x30)) else none) 0

/-- A banned address, and the second at which that ends, 0 for never. -/
structure Ban where
  addr : Str
  till : UInt64

def banLine (l : Str) : Option Ban :=
  match fields isWhite l with
  | addr::till::_ => (parseBelow (2 ^ 64) till).map fun till => ⟨addr,UInt64.ofNat till⟩
  | _ => none

def bans (shieldBan : Option Str) (spawned : Except Str Output) : Except Str (List Ban) :=
  match shieldBan with
  | none => .error (str "shield-ban path is not valid UTF-8")
  | some bin => (run bin spawned).map fun out => (rustLines out).filterMap banLine

def Args.bans (args : Args) (host : Host) : Except Str (List Ban) :=
  Ui.bans (toStr args.shieldBan) (host.spawn ((toStr args.shieldBan).getD []) [str "list"])

def Args.guardStats (args : Args) (host : Host) : Except Str (List (Str × Str)) :=
  Ui.guardStats (toStr args.fipsGuard) (host.spawn ((toStr args.fipsGuard).getD []) [str "stats"])

def Args.knownServices (args : Args) (host : Host) : List Str :=
  match args.config host with
  | .ok config => (services config).map Service.logName
  | .error _ => []

inductive Tool where
  | config
  | bans
  | guard

/-- Where the reader should look when a tool did not run. -/
def Args.hint (args : Args) : Tool → Str
  | .config => str "shield-ui runs `" ++ display args.shieldConfig ++ str
      " show --porcelain`. Install it with `sudo make install` (host mode), or point --shield-config at it. In container mode it lives inside the image, so the host needs its own copy plus presets/. If it is installed, it may simply not have found a shield.env — pass --env-file."
  | .bans => str "shield-ui runs `" ++ display args.shieldBan ++ str
      " list`. Install it with `sudo make install` or `sudo make install-guard`. With the eBPF backend it execs fips-guard, which needs CAP_BPF to open the pinned maps — a unit with an empty CapabilityBoundingSet cannot, even as root."
  | .guard => str "shield-ui runs `" ++ display args.fipsGuard ++ str
      " stats`. This is optional: without the eBPF guard, bans are enforced by the banlist file. If you do run it, note that reading the pinned maps needs CAP_BPF."

/-! ## Documents -/

/-- An object, written call by call. -/
def document (calls : List Call) : List Char := (calls.foldl Obj.call Obj.new).done.1

def strCall (k : String) (v : Str) : Call := .str k.toList (scalars v)

def numCall (k : String) (v : UInt64) : Call := .num k.toList v

def boolCall (k : String) (v : Bool) : Call := .bool k.toList v

def rawCall (k : String) (v : List Char) : Call := .raw k.toList v

def limitJson (limit : Report) : List Char :=
  document [strCall "key" limit.key,strCall "value" limit.value,strCall "source" limit.source]

def serviceJson (s : Service) : List Char :=
  document [strCall "profile" s.profile,strCall "name" s.logName,strCall "port" s.listenPort,strCall "upstream" s.upstream,
    strCall "preset" s.preset,rawCall "limits" (arr (s.limits.map limitJson))]

def banJson (b : Ban) (now : UInt64) : List Char :=
  document [strCall "addr" b.addr,numCall "until" b.till,boolCall "permanent" (b.till = 0),
    numCall "remaining" (UInt64.ofNat (b.till.toNat - now.toNat))]

def statJson (stat : Str × Str) : List Char := document [strCall "label" stat.1,strCall "value" stat.2]

/-! ## Responses -/

namespace Response

def json (body : List Char) : Response := ⟨200,"application/json; charset=utf-8".toList,body⟩

def html (body : List Char) : Response := ⟨200,"text/html; charset=utf-8".toList,body⟩

/-- `Response::error`, of a message that is put together as it runs. -/
def failure (status : UInt16) (msg : Str) : Response :=
  ⟨status,"application/json; charset=utf-8".toList,document [strCall "error" msg]⟩

end Response

def Request.param (req : Request) (key : String) : Option (List Char) :=
  (req.query.find? fun entry => entry.1 = key.toList).map Prod.snd

/-- Of two bans the one that ends first has the lower rank. -/
def rank (b : Ban) : Nat := if b.till = 0 then 2 ^ 64 - 1 else b.till.toNat

/-- The bans that end last, up to 20. -/
def recent (bans : List Ban) : List Ban := ((bans.mergeSort fun a b => rank a ≤ rank b).reverse).take 20

def Args.configCalls (args : Args) : Except Str (List Report) → List Call
  | .ok config => [rawCall "services" (arr ((services config).map serviceJson)),
      strCall "bind_addr" ((Config.get config (str "SHIELD_BIND_ADDR")).getD []),
      strCall "preset" ((Config.get config (str "SHIELD_PRESET")).getD (str "default")),boolCall "config_ok" true]
  | .error e => [rawCall "services" "[]".toList,boolCall "config_ok" false,strCall "config_error" e,
      strCall "config_hint" (args.hint .config)]

def Args.banCalls (args : Args) (now : UInt64) : Except Str (List Ban) → List Call
  | .ok bans => [numCall "ban_count" (UInt64.ofNat bans.length),boolCall "bans_ok" true,
      rawCall "bans" (arr ((recent bans).map (banJson · now)))]
  | .error e => [boolCall "bans_ok" false,numCall "ban_count" 0,rawCall "bans" "[]".toList,strCall "bans_error" e,
      strCall "bans_hint" (args.hint .bans)]

def Args.guardCalls (args : Args) (installed : Bool) : Except Str (List (Str × Str)) → List Call
  | .ok stats => [boolCall "guard_ok" true,rawCall "guard" (arr (stats.map statJson))]
  | .error e => [boolCall "guard_ok" false,rawCall "guard" "[]".toList,boolCall "guard_installed" installed,
      strCall "guard_error" e,strCall "guard_hint" (args.hint .guard)]

def apiStatus (args : Args) (host : Host) : Response :=
  .json (document (args.configCalls (args.config host) ++ args.banCalls host.now (args.bans host) ++
    args.guardCalls (host.there args.fipsGuard) (args.guardStats host) ++ [numCall "now" host.later]))

def apiBans (args : Args) (host : Host) : Response :=
  match args.bans host with
  | .ok bans => .json (document [numCall "count" (UInt64.ofNat bans.length),rawCall "bans" (arr (bans.map (banJson · host.now)))])
  | .error e => .failure 500 e

/-! ## Logs -/

def maxTailBytes : Nat := 2 * 1024 * 1024
def maxTailLines : Nat := 1000

/-- `Path::join`. -/
def join (dir name : Bytes) : Bytes :=
  if name.head? = some 0x2F then name
  else if dir = [] ∨ dir.getLast? = some 0x2F then dir ++ name
  else dir ++ 0x2F::name

def logPath (logDir : Bytes) (name kind : List Char) : Bytes :=
  join logDir (encode ("shield-".toList ++ name ++ ".".toList ++ kind ++ ".log".toList))

/-- `clamp(1,MAX_TAIL_LINES)` of the number that is asked for. -/
def lineCount (req : Request) : Nat :=
  max 1 (min (((req.param "n").bind fun v => parseBelow (2 ^ 64) (units v)).getD 100) maxTailLines)

def logsJson (service kind : List Char) (lines : List Char) : Response :=
  .json (document [.str "service".toList service,.str "kind".toList kind,rawCall "lines" lines])

def apiLogs (args : Args) (host : Host) (req : Request) : Response :=
  match req.param "service" with
  | none => .error 400 "service is required"
  | some service =>
    let kind := (req.param "kind").getD "stream".toList
    if ¬ (kind = "access".toList ∨ kind = "stream".toList) then .error 400 "kind must be access or stream"
    else if ¬ (args.knownServices host).contains (units service) then .error 404 "unknown service"
    else
      match host.openFile (logPath args.logDir service kind) with
      | .ok file => logsJson service kind (strArr ((tail file (lineCount req) maxTailBytes).map scalars))
      | .error .notFound => logsJson service kind "[]".toList
      | .error .other => .error 500 "log could not be read"

def handle (args : Args) (host : Host) (page : List Char) (req : Request) : Response :=
  if req.path = "/".toList ∨ req.path = "/index.html".toList then .html page
  else if req.path = "/api/status".toList then apiStatus args host
  else if req.path = "/api/bans".toList then apiBans args host
  else if req.path = "/api/logs".toList then apiLogs args host req
  else .error 404 "no such endpoint"

/-! ## A connection -/

def reason (status : UInt16) : String :=
  if status = 200 then "OK"
  else if status = 400 then "Bad Request"
  else if status = 404 then "Not Found"
  else if status = 405 then "Method Not Allowed"
  else if status = 413 then "Payload Too Large"
  else if status = 500 then "Internal Server Error"
  else "Unknown"

/-- The lines of the head of a response. -/
def headLines (resp : Response) : List (List Char) :=
  ["HTTP/1.1 ".toList ++ Nat.toDigits 10 resp.status.toNat ++ " ".toList ++ (reason resp.status).toList,
    "Content-Type: ".toList ++ resp.contentType,
    "Content-Length: ".toList ++ Nat.toDigits 10 (encode resp.body).length,
    "Connection: close".toList,
    "Cache-Control: no-store".toList,
    "X-Content-Type-Options: nosniff".toList,
    "X-Frame-Options: DENY".toList,
    "Referrer-Policy: no-referrer".toList,
    "Content-Security-Policy: default-src 'none'; style-src 'unsafe-inline'; script-src 'unsafe-inline'; connect-src 'self'".toList]

def writeResponse (resp : Response) : Bytes :=
  encode ((headLines resp).flatMap (· ++ "\r\n".toList) ++ "\r\n".toList) ++ encode resp.body

/-- What is written to a connection that sends a stream of bytes. -/
def respond (args : Args) (host : Host) (page : List Char) (stream : Bytes) : Response :=
  match (readRequest stream).1 with
  | .ok req => handle args host page req
  | .error resp => resp

/-! ## What the documents say -/

section Documents
open Json

/-- A string of the dashboard, as a document says it. -/
def text (v : Str) : Json := .str (units (scalars v))

def whole (n : Nat) : Json := .num (Number.nearest n)

def limitValue (limit : Report) : Json :=
  .obj [(str "key",text limit.key),(str "value",text limit.value),(str "source",text limit.source)]

def serviceValue (s : Service) : Json :=
  .obj [(str "profile",text s.profile),(str "name",text s.logName),(str "port",text s.listenPort),(str "upstream",text s.upstream),
    (str "preset",text s.preset),(str "limits",.arr (s.limits.map limitValue))]

def banValue (b : Ban) (now : UInt64) : Json :=
  .obj [(str "addr",text b.addr),(str "until",whole b.till.toNat),(str "permanent",.bool (b.till = 0)),
    (str "remaining",whole (b.till.toNat - now.toNat))]

def statValue (stat : Str × Str) : Json := .obj [(str "label",text stat.1),(str "value",text stat.2)]

theorem parse_document {calls : List Call} {members : List (Str × Json)} (inserts : List.Forall₂ Call.Member calls members) :
    parse (units (document calls)) = some (.obj members) := parse_done inserts

theorem strCall_member (k : String) (v : Str) : (strCall k v).Member (str k,text v) := ⟨rfl,rfl⟩

theorem numCall_member (k : String) (v : UInt64) : (numCall k v).Member (str k,whole v.toNat) := ⟨rfl,rfl⟩

theorem boolCall_member (k : String) (v : Bool) : (boolCall k v).Member (str k,.bool v) := ⟨rfl,rfl⟩

theorem rawCall_member (k : String) {v : List Char} {item : Json} (parses : parse (units v) = some item) :
    (rawCall k v).Member (str k,item) := ⟨rfl,parses⟩

theorem arr_member (k : String) {α : Type} {items : List α} {write : α → List Char} {value : α → Json}
    (parses : ∀ item, parse (units (write item)) = some (value item)) :
    (rawCall k (arr (items.map write))).Member (str k,.arr (items.map value)) :=
  rawCall_member k (parse_arr (List.forall₂_map_left_iff.mpr (List.forall₂_map_right_iff.mpr
    (List.forall₂_same.mpr fun item _ => parses item))))

theorem parse_limitJson (limit : Report) : parse (units (limitJson limit)) = some (limitValue limit) :=
  parse_document (.cons (strCall_member _ _) (.cons (strCall_member _ _) (.cons (strCall_member _ _) .nil)))

theorem parse_serviceJson (s : Service) : parse (units (serviceJson s)) = some (serviceValue s) :=
  parse_document (.cons (strCall_member _ _) (.cons (strCall_member _ _) (.cons (strCall_member _ _)
    (.cons (strCall_member _ _) (.cons (strCall_member _ _) (.cons (arr_member _ parse_limitJson) .nil))))))

theorem parse_banJson (now : UInt64) (b : Ban) : parse (units (banJson b now)) = some (banValue b now) := by
  have left : (UInt64.ofNat (b.till.toNat - now.toNat)).toNat = b.till.toNat - now.toNat := by
    have bound := b.till.toNat_lt
    rw [UInt64.toNat_ofNat']
    exact Nat.mod_eq_of_lt (by omega)
  have remaining := numCall_member "remaining" (UInt64.ofNat (b.till.toNat - now.toNat))
  rw [left] at remaining
  exact parse_document (.cons (strCall_member _ _) (.cons (numCall_member _ _) (.cons (boolCall_member _ _)
    (.cons remaining .nil))))

theorem parse_statJson (stat : Str × Str) : parse (units (statJson stat)) = some (statValue stat) :=
  parse_document (.cons (strCall_member _ _) (.cons (strCall_member _ _) .nil))

section Status
variable (args : Args) (host : Host)

/-- What the status says of the configuration. -/
def Args.configMembers : Except Str (List Report) → List (Str × Json)
  | .ok config => [(str "services",.arr ((services config).map serviceValue)),
      (str "bind_addr",text ((Config.get config (str "SHIELD_BIND_ADDR")).getD [])),
      (str "preset",text ((Config.get config (str "SHIELD_PRESET")).getD (str "default"))),(str "config_ok",.bool true)]
  | .error e => [(str "services",.arr []),(str "config_ok",.bool false),(str "config_error",text e),
      (str "config_hint",text (args.hint .config))]

def Args.banMembers (now : UInt64) : Except Str (List Ban) → List (Str × Json)
  | .ok bans => [(str "ban_count",whole (UInt64.ofNat bans.length).toNat),(str "bans_ok",.bool true),
      (str "bans",.arr ((recent bans).map (banValue · now)))]
  | .error e => [(str "bans_ok",.bool false),(str "ban_count",whole 0),(str "bans",.arr []),(str "bans_error",text e),
      (str "bans_hint",text (args.hint .bans))]

def Args.guardMembers (installed : Bool) : Except Str (List (Str × Str)) → List (Str × Json)
  | .ok stats => [(str "guard_ok",.bool true),(str "guard",.arr (stats.map statValue))]
  | .error e => [(str "guard_ok",.bool false),(str "guard",.arr []),(str "guard_installed",.bool installed),
      (str "guard_error",text e),(str "guard_hint",text (args.hint .guard))]

def Args.statusMembers : List (Str × Json) :=
  args.configMembers (args.config host) ++ args.banMembers host.now (args.bans host) ++
    args.guardMembers (host.there args.fipsGuard) (args.guardStats host) ++ [(str "now",whole host.later.toNat)]

theorem parse_empty : parse (units "[]".toList) = some (.arr []) := @parse_arr [] _ .nil

theorem configCalls_members (found : Except Str (List Report)) :
    List.Forall₂ Call.Member (args.configCalls found) (args.configMembers found) := by
  cases found with
  | ok config =>
    exact .cons (arr_member _ parse_serviceJson) (.cons (strCall_member _ _) (.cons (strCall_member _ _)
      (.cons (boolCall_member _ _) .nil)))
  | error e =>
    exact .cons (rawCall_member _ parse_empty) (.cons (boolCall_member _ _) (.cons (strCall_member _ _)
      (.cons (strCall_member _ _) .nil)))

theorem banCalls_members (now : UInt64) (found : Except Str (List Ban)) :
    List.Forall₂ Call.Member (args.banCalls now found) (args.banMembers now found) := by
  cases found with
  | ok bans =>
    exact .cons (numCall_member _ _) (.cons (boolCall_member _ _) (.cons (arr_member _ (parse_banJson now)) .nil))
  | error e =>
    exact .cons (boolCall_member _ _) (.cons (numCall_member _ _) (.cons (rawCall_member _ parse_empty)
      (.cons (strCall_member _ _) (.cons (strCall_member _ _) .nil))))

theorem guardCalls_members (installed : Bool) (found : Except Str (List (Str × Str))) :
    List.Forall₂ Call.Member (args.guardCalls installed found) (args.guardMembers installed found) := by
  cases found with
  | ok stats => exact .cons (boolCall_member _ _) (.cons (arr_member _ parse_statJson) .nil)
  | error e =>
    exact .cons (boolCall_member _ _) (.cons (rawCall_member _ parse_empty) (.cons (boolCall_member _ _)
      (.cons (strCall_member _ _) (.cons (strCall_member _ _) .nil))))

theorem parse_status : parse (units (apiStatus args host).body) = some (.obj (args.statusMembers host)) :=
  parse_document (List.rel_append (List.rel_append (List.rel_append (configCalls_members args _) (banCalls_members args _ _))
    (guardCalls_members args _ _)) (.cons (numCall_member _ _) .nil))

end Status

theorem parse_error (status : UInt16) (msg : String) :
    parse (units (Response.error status msg).body) = some (.obj [(str "error",.str (str msg))]) :=
  @parse_document [.str "error".toList msg.toList] _ (.cons ⟨rfl,rfl⟩ .nil)

theorem parse_failure (status : UInt16) (msg : Str) :
    parse (units (Response.failure status msg).body) = some (.obj [(str "error",text msg)]) :=
  parse_document (.cons (strCall_member _ _) .nil)

theorem parse_logs (service kind : List Char) {lines : List Char} {items : List Json}
    (parses : parse (units lines) = some (.arr items)) : parse (units (logsJson service kind lines).body) =
      some (.obj [(str "service",.str (units service)),(str "kind",.str (units kind)),(str "lines",.arr items)]) :=
  parse_document (.cons ⟨rfl,rfl⟩ (.cons ⟨rfl,rfl⟩ (.cons (rawCall_member _ parses) .nil)))

end Documents

/-! ## What a client reads -/

section Client
open Json Reply

/-- The fields that all responses have. -/
def fixedFields : List (Str × Str) :=
  [(str "Connection",str " close"),(str "Cache-Control",str " no-store"),(str "X-Content-Type-Options",str " nosniff"),
    (str "X-Frame-Options",str " DENY"),(str "Referrer-Policy",str " no-referrer"),
    (str "Content-Security-Policy",
      str " default-src 'none'; style-src 'unsafe-inline'; script-src 'unsafe-inline'; connect-src 'self'")]

def fieldsOf (resp : Response) : List (Str × Str) :=
  [(str "Content-Type",0x20::units resp.contentType),(str "Content-Length",0x20::natText (encode resp.body).length)] ++
    fixedFields

/-- The statuses that there are, and the types of what is sent. -/
structure Framed (resp : Response) : Prop where
  status : resp.status ∈ ([200,400,404,405,413,500] : List UInt16)
  type : resp.contentType ∈ ["application/json; charset=utf-8".toList,"text/html; charset=utf-8".toList]

theorem toString_encode (cs : List Char) : Text.toString (encode cs) = units cs := by
  rw [Text.toString,decode_encode]
  rfl

theorem headLines_fields (resp : Response) : ∃ first, headLines resp = first::(headLines resp).tail ∧
    first = "HTTP/1.1 ".toList ++ Nat.toDigits 10 resp.status.toNat ++ " ".toList ++ (reason resp.status).toList ∧
    (headLines resp).tail.map units = (fieldsOf resp).map fieldLine := by
  refine ⟨_,rfl,rfl,?_⟩
  have type : units ("Content-Type: ".toList ++ resp.contentType) =
      fieldLine (str "Content-Type",0x20::units resp.contentType) := by
    have name : units "Content-Type: ".toList = str "Content-Type" ++ [0x3A,0x20] := by decide
    rw [units_append,name]
    simp [fieldLine]
  have length : units ("Content-Length: ".toList ++ Nat.toDigits 10 (encode resp.body).length) =
      fieldLine (str "Content-Length",0x20::natText (encode resp.body).length) := by
    have name : units "Content-Length: ".toList = str "Content-Length" ++ [0x3A,0x20] := by decide
    rw [units_append,name,units_toDigits]
    simp [fieldLine]
  have fixed : (headLines resp).tail.tail.tail.map units = fixedFields.map fieldLine := by
    change (["Connection: close".toList,_,_,_,_,_] : List (List Char)).map units = _
    decide +kernel
  rw [fieldsOf,List.map_append,← fixed,headLines]
  simp only [List.tail_cons,List.map_cons,List.map_nil,type,length,List.cons_append,List.nil_append]

theorem encode_plain {cs : List Char} (filled : cs ≠ []) (free : '\r' ∉ cs) : Plain (encode cs) := by
  refine ⟨fun empty => filled ?_,fun member => free ?_⟩
  · rw [← decode_encode cs,empty,decode_nil]
  · obtain ⟨c,own,inside⟩ := List.mem_flatMap.mp member
    have same : c = '\r' := ascii_of_mem c 0x0D (by decide) inside
    exact same ▸ own

theorem digits_free {c : Char} (other : c.isDigit = false) (n : Nat) : c ∉ Nat.toDigits 10 n := fun member => by
  have digit := Nat.isDigit_of_mem_toDigits (by decide) (by decide) member
  rw [other] at digit
  cases digit

theorem headLines_plain {resp : Response} (framed : Framed resp) : ∀ line ∈ headLines resp, line ≠ [] ∧ '\r' ∉ line := by
  have type : '\r' ∉ resp.contentType := by
    rcases List.mem_pair.mp framed.type with same | same <;> rw [same] <;> decide
  have reason : '\r' ∉ (reason resp.status).toList := by
    have each : ([200,400,404,405,413,500] : List UInt16).all fun status => '\r' ∉ (Ui.reason status).toList := by decide
    exact of_decide_eq_true (List.all_eq_true.mp each _ framed.status)
  have digits (n : Nat) : '\r' ∉ Nat.toDigits 10 n := digits_free (by decide) n
  have fixed : ∀ line ∈ (headLines resp).tail.tail.tail, line ≠ [] ∧ '\r' ∉ line := by
    change ∀ line ∈ (["Connection: close".toList,_,_,_,_,_] : List (List Char)), line ≠ [] ∧ '\r' ∉ line
    decide +kernel
  intro line own
  rw [headLines] at own fixed
  rcases List.mem_cons.mp own with rfl | own
  · simp [digits,reason]
  · rcases List.mem_cons.mp own with rfl | own
    · simp [type]
    · rcases List.mem_cons.mp own with rfl | own
      · simp [digits]
      · exact fixed line own

theorem writeResponse_block (resp : Response) :
    writeResponse resp = Head.block ((headLines resp).map encode) ++ encode resp.body := by
  have ends : encode "\r\n".toList = Head.crlf := by decide
  have lines : encode ((headLines resp).flatMap (· ++ "\r\n".toList)) = ((headLines resp).map encode).flatMap (· ++ Head.crlf) := by
    induction headLines resp with
    | nil => rfl
    | cons line lines ih =>
      rw [List.flatMap_cons,encode_append,encode_append,ends,ih]
      simp
  rw [writeResponse,encode_append,lines,ends,Head.block]

theorem fieldsOf_free (resp : Response) : ∀ field ∈ fieldsOf resp, 0x3A ∉ field.1 := by
  have names : ∀ name ∈ (fieldsOf resp).map Prod.fst, 0x3A ∉ name := by
    change ∀ name ∈ ([str "Content-Type",str "Content-Length"] ++ fixedFields.map Prod.fst), 0x3A ∉ name
    decide +kernel
  exact fun field own => names _ (List.mem_map_of_mem own)

theorem fieldsOf_length (resp : Response) :
    contentLength ((fieldsOf resp).map fieldLine) = some (encode resp.body).length := by
  have own : ((fieldsOf resp).filter fun field => field.1.map Head.lower = str "content-length") =
      [(str "Content-Length",0x20::natText (encode resp.body).length)] := rfl
  have digits := natText_digits (encode resp.body).length
  have other {u : UInt16} (digit : isDigit u = true) : Head.isOws u = false := by
    refine Bool.eq_false_iff.mpr fun gap => ?_
    rcases Bool.or_eq_true_iff.mp gap with same | same <;> rw [eq_of_beq same] at digit <;> cases digit
  have value : Head.trimOws (0x20::natText (encode resp.body).length) = natText (encode resp.body).length :=
    trimOws_inner (fun u head => other (digits u (List.mem_of_head? head)))
      fun u last => other (digits u (List.mem_of_getLast? last))
  rw [contentLength,values_lines _ (fieldsOf_free resp),own,List.map_singleton,value]
  exact number_natText _

theorem Framed.bodied {resp : Response} (framed : Framed resp) : bodiless false resp.status.toNat = false := by
  have each : ([200,400,404,405,413,500] : List UInt16).all fun status => !bodiless false status.toNat := by decide
  exact Bool.not_eq_true' _ ▸ List.all_eq_true.mp each _ framed.status

/-- A client reads a response to its end and finds its body, or, after `HEAD`, to the empty line. -/
theorem read_response {resp : Response} (framed : Framed resp) (rest : Bytes) :
    read false (writeResponse resp ++ rest) =
        some (⟨resp.status.toNat,(fieldsOf resp).map fieldLine,encode resp.body⟩,rest) ∧
      read true (writeResponse resp ++ rest) =
        some (⟨resp.status.toNat,(fieldsOf resp).map fieldLine,[]⟩,encode resp.body ++ rest) := by
  obtain ⟨first,split,line,fields⟩ := headLines_fields resp
  have texts : ((headLines resp).tail.map encode).map Text.toString = (fieldsOf resp).map fieldLine := by
    rw [← fields,List.map_map]
    exact List.map_congr_left fun line _ => toString_encode line
  have plain : ∀ line ∈ encode first::(headLines resp).tail.map encode, Plain line := by
    rw [← List.map_cons,← split]
    intro line own
    obtain ⟨cs,inside,rfl⟩ := List.mem_map.mp own
    exact encode_plain (headLines_plain framed cs inside).1 (headLines_plain framed cs inside).2
  have starts : statusOf (Text.toString (encode first)) = some resp.status.toNat := by
    have each : ([200,400,404,405,413,500] : List UInt16).all fun status => statusOf (units ("HTTP/1.1 ".toList ++
        Nat.toDigits 10 status.toNat ++ " ".toList ++ (reason status).toList)) = some status.toNat := by decide +kernel
    rw [toString_encode,line,of_decide_eq_true (List.all_eq_true.mp each _ framed.status)]
  have length : contentLength (((headLines resp).tail.map encode).map Text.toString) = some (encode resp.body).length :=
    texts ▸ fieldsOf_length resp
  rw [writeResponse_block,split,List.map_cons,List.append_assoc,read_block plain starts framed.bodied length,read_head plain starts,
    texts]
  exact ⟨rfl,rfl⟩

/-- The page, an object that is no error, or an error. -/
inductive Answer (page : List Char) : Response → Prop where
  | page : Answer page (.html page)
  | object {body : List Char} {members : List (Str × Json)} (parses : parse (units body) = some (.obj members))
      (fine : ∀ member ∈ members, member.1 ≠ str "error") : Answer page (.json body)
  | error {status : UInt16} {body : List Char} {message : Str} (failed : status ∈ ([400,404,405,413,500] : List UInt16))
      (parses : parse (units body) = some (.obj [(str "error",.str message)])) :
      Answer page ⟨status,"application/json; charset=utf-8".toList,body⟩

section Answers
variable {page : List Char}

theorem Answer.framed {resp : Response} (answer : Answer page resp) : Framed resp := by
  cases answer with
  | page => exact ⟨by simp [Response.html],by simp [Response.html]⟩
  | object parses fine => exact ⟨by simp [Response.json],by simp [Response.json]⟩
  | error failed parses => exact ⟨List.mem_cons_of_mem _ failed,by simp⟩

theorem answer_error {status : UInt16} (failed : status ∈ ([400,404,405,413,500] : List UInt16)) (msg : String) :
    Answer page (.error status msg) := .error failed (parse_error status msg)

theorem drainHeaders_error {left total : Nat} {stream rest : Bytes} {resp : Response}
    (refused : drainHeaders left total stream = (.error resp,rest)) : Answer page resp := by
  induction left generalizing total stream with
  | zero =>
    rw [drainHeaders] at refused
    cases refused
    exact answer_error (by decide) _
  | succ left ih =>
    rw [drainHeaders] at refused
    cases line : readLine maxRequestLine stream with
    | mk read after =>
      rw [line] at refused
      cases read with
      | none =>
        cases refused
        exact answer_error (by decide) _
      | some h =>
        dsimp only at refused
        split_ifs at refused
        · cases refused
        · cases refused
          exact answer_error (by decide) _
        · exact ih refused

theorem readRequest_error {stream : Bytes} {resp : Response} (refused : (readRequest stream).1 = .error resp) :
    Answer page resp := by
  rw [readRequest] at refused
  cases line : readLine maxRequestLine stream with
  | mk read after =>
    rw [line] at refused
    cases read with
    | none =>
      cases refused
      exact answer_error (by decide) _
    | some h =>
      dsimp only at refused
      split_ifs at refused
      · cases refused
        exact answer_error (by decide) _
      · cases refused
        exact answer_error (by decide) _
      · cases refused
        exact answer_error (by decide) _
      · cases drained : drainHeaders maxHeaders 0 after with
        | mk result rest =>
          rw [drained] at refused
          cases result with
          | ok _ => cases refused
          | error resp' =>
            cases refused
            exact drainHeaders_error drained

theorem statusMembers_fine (args : Args) (host : Host) : ∀ member ∈ args.statusMembers host, member.1 ≠ str "error" := by
  have names : ∀ name ∈ [str "services",str "bind_addr",str "preset",str "config_ok",str "config_error",str "config_hint",
      str "ban_count",str "bans_ok",str "bans",str "bans_error",str "bans_hint",str "guard_ok",str "guard",
      str "guard_installed",str "guard_error",str "guard_hint",str "now"], name ≠ str "error" := by decide
  intro member own
  refine names _ ?_
  simp only [Args.statusMembers,List.mem_append] at own
  rcases own with ((own | own) | own) | own
  · cases found : args.config host <;> rw [found] at own <;>
      simp only [Args.configMembers,List.mem_cons,List.not_mem_nil,or_false] at own <;>
      rcases own with rfl | rfl | rfl | rfl <;> simp
  · cases found : args.bans host <;> rw [found] at own <;>
      simp only [Args.banMembers,List.mem_cons,List.not_mem_nil,or_false] at own
    · rcases own with rfl | rfl | rfl | rfl | rfl <;> simp
    · rcases own with rfl | rfl | rfl <;> simp
  · cases found : args.guardStats host <;> rw [found] at own <;>
      simp only [Args.guardMembers,List.mem_cons,List.not_mem_nil,or_false] at own
    · rcases own with rfl | rfl | rfl | rfl | rfl <;> simp
    · rcases own with rfl | rfl <;> simp
  · rw [List.mem_singleton.mp own]
    simp

theorem logs_answer {args : Args} {host : Host} {req : Request} : Answer page (apiLogs args host req) := by
  have fine (service kind : Str) (lines : Json) : ∀ member ∈ [(str "service",Json.str service),(str "kind",.str kind),(str "lines",lines)],
      member.1 ≠ str "error" := by
    have names : str "service" ≠ str "error" ∧ str "kind" ≠ str "error" ∧ str "lines" ≠ str "error" := by decide
    simpa using names
  rw [apiLogs]
  cases req.param "service" with
  | none => exact answer_error (by decide) _
  | some service =>
    dsimp only
    split_ifs with kind known
    · split
      · exact .object (parse_logs _ _ (parse_strArr _)) (fine _ _ _)
      · exact .object (parse_logs _ _ parse_empty) (fine _ _ _)
      · exact answer_error (by decide) _
    · exact answer_error (by decide) _
    · exact answer_error (by decide) _

theorem handle_answer (args : Args) (host : Host) (req : Request) : Answer page (handle args host page req) := by
  rw [handle]
  split_ifs
  · exact .page
  · exact .object (parse_status args host) (statusMembers_fine args host)
  · rw [apiBans]
    cases args.bans host with
    | ok bans =>
      have names : str "count" ≠ str "error" ∧ str "bans" ≠ str "error" := by decide
      refine .object (parse_document (.cons (numCall_member _ _) (.cons (arr_member _ (parse_banJson _)) .nil))) ?_
      simpa using names
    | error e => exact @Answer.error page 500 _ _ (by decide) (parse_failure 500 e)
  · exact logs_answer
  · exact answer_error (by decide) _

theorem respond_answer (args : Args) (host : Host) (stream : Bytes) : Answer page (respond args host page stream) := by
  rw [respond]
  cases read : (readRequest stream).1 with
  | ok req => exact handle_answer args host req
  | error resp => exact readRequest_error read

end Answers

/-- Whatever is sent, one response is written, which a client reads to its end, or to its empty line
after `HEAD`: the page, an object that is no error, or an error, with a status that says which, and
kept by no cache. -/
theorem respond_read (args : Args) (host : Host) (page : List Char) (stream rest : Bytes) :
    ∃ fields, read false (writeResponse (respond args host page stream) ++ rest) =
        some (⟨(respond args host page stream).status.toNat,fields,encode (respond args host page stream).body⟩,rest) ∧
      read true (writeResponse (respond args host page stream) ++ rest) =
        some (⟨(respond args host page stream).status.toNat,fields,[]⟩,encode (respond args host page stream).body ++ rest) ∧
      values "content-type" fields = [units (respond args host page stream).contentType] ∧
      values "cache-control" fields = [str "no-store"] ∧ values "x-content-type-options" fields = [str "nosniff"] ∧
      Answer page (respond args host page stream) := by
  have answer := @respond_answer page args host stream
  generalize respond args host page stream = resp at *
  have framed := answer.framed
  have free := fieldsOf_free resp
  refine ⟨_,(read_response framed rest).1,(read_response framed rest).2,?_,?_,?_,answer⟩
  · have own : ((fieldsOf resp).filter fun field => field.1.map Head.lower = str "content-type") =
        [(str "Content-Type",0x20::units resp.contentType)] := rfl
    rw [values_lines _ free,own]
    rcases List.mem_pair.mp framed.type with same | same <;> rw [same] <;> decide +kernel
  · have own : ((fieldsOf resp).filter fun field => field.1.map Head.lower = str "cache-control") =
        [(str "Cache-Control",str " no-store")] := rfl
    rw [values_lines _ free,own]
    decide +kernel
  · have own : ((fieldsOf resp).filter fun field => field.1.map Head.lower = str "x-content-type-options") =
        [(str "X-Content-Type-Options",str " nosniff")] := rfl
    rw [values_lines _ free,own]
    decide +kernel

end Client

end FipsShield.Ui
