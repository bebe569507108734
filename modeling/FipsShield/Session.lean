import FipsShield.Core
import FipsShield.Library.Transducer

/-! What one session of the WebSocket inspection engine
(`core/njs/shield_ws.js`) consists of: its policy, its mutable state, and the
calls it makes on the session object. -/
namespace FipsShield.Engine
open Text FipsShield.Core

/-- What the engine reads from outside: the port's policy variable, the peer, the
readings of the clock in order, and what `isBanned` answers (or throws) when it
is asked after so many readings. -/
structure Env where
  policy : Option Str
  remoteAddress : Str
  now : Nat → Int
  isBanned : Nat → Except Str Bool

structure Bucket where
  rate : Number
  burst : Number
  tokens : Number
  t : Int
  deriving DecidableEq

def bucket (rate burst : Number) (now : Int) : Bucket := ⟨rate,burst,burst,now⟩

/-- Refills the bucket to the time given, then takes one token if it holds one. The
arithmetic is exact, where binary64 rounds and a product can overflow. -/
def takeToken (b : Bucket) (now : Int) : Bool × Bucket :=
  let refill := .fin ((now - b.t : Int) / 1000) * b.rate
  let tokens := Number.min b.burst (b.tokens + refill)
  if tokens < 1 then (false,{b with tokens,t := now})
  else (true,{b with tokens := tokens - 1,t := now})

def maxHandshake : Nat := 16384
def defaultTypes : String := "EVENT,REQ,CLOSE,COUNT,AUTH,NEG-OPEN,NEG-MSG,NEG-CLOSE"
def maxPendingFrames : Nat := 256
def maxFragments : Nat := 64
def defaultMaxHsReads : Number := 32
def minMsgReads : Number := 64

structure Cfg where
  service : Str
  banFile : Str
  banRecheck : Number
  maxMsg : Number
  maxSubs : Number
  maxFilters : Number
  maxFilterItems : Number
  maxLimit : Number
  maxFilterValue : Number
  requireNarrowing : Bool
  maxHsReads : Number
  maxMsgReads : Number
  bMsg : Bucket
  bEvent : Bucket
  bReq : Bucket
  types : List Str
  kindDeny : List Str
  deriving DecidableEq

/-- `readCfg`: the three buckets take the first three readings of the clock. -/
def readCfg (env : Env) : Cfg :=
  let p := policy env.policy
  let knob key dflt := num (lookup p key) dflt
  { service := lookupOr p "service" "unknown"
    banFile := lookupOr p "ban_file" ""
    banRecheck := knob "ban_recheck" 10
    maxMsg := knob "ws_max_msg" 131072
    maxSubs := knob "ws_max_subs" 20
    maxFilters := knob "ws_max_filters" 10
    maxFilterItems := knob "ws_max_filter_items" 500
    maxLimit := knob "ws_max_limit" 5000
    maxFilterValue := knob "ws_max_filter_value" 512
    requireNarrowing := lookup p "ws_require_narrowing" != some (str "false")
    maxHsReads := knob "ws_max_hs_reads" defaultMaxHsReads
    maxMsgReads := knob "ws_max_msg_reads"
      (Number.ceil (knob "ws_max_msg" 131072 * .fin (1 / 1024)) + minMsgReads)
    bMsg := bucket (knob "ws_msg_rate" 20) (knob "ws_msg_burst" 100) (env.now 0)
    bEvent := bucket (knob "ws_event_rate" 5) (knob "ws_event_burst" 50) (env.now 1)
    bReq := bucket (knob "ws_req_rate" 5) (knob "ws_req_burst" 20) (env.now 2)
    types := keyset (lookup p "nostr_types") (str defaultTypes)
    kindDeny := keyset (lookup p "nostr_kind_deny") [] }

/-- The part of a session's state that inspecting a message can change. -/
structure Limits where
  /-- How many readings of the clock have been taken. -/
  ticks : Nat
  bMsg : Bucket
  bEvent : Bucket
  bReq : Bucket
  subs : List Str
  subCount : Nat
  deriving DecidableEq

inductive Mode where
  | handshake | ws | plain
  deriving DecidableEq

structure St where
  mode : Mode
  hs : Bytes
  hsReads : Nat
  hsScanned : Nat
  acc : Bytes
  chunks : List Bytes
  pendingLen : Nat
  need : Nat
  msgReads : Nat
  pending : List Bytes
  msgParts : List Bytes
  msgLen : Nat
  inMsg : Bool
  banCheckAt : Number
  checkedResponse : Bool
  killed : Bool
  lim : Limits
  deriving DecidableEq

def St.limited (st : St) (lim : Limits) : St := {st with lim}

def nextBanCheck (cfg : Cfg) (now : Int) : Number := (now : Number) + cfg.banRecheck * 1000

def filter (env : Env) (cfg : Cfg) : St where
  mode := .handshake
  hs := []
  hsReads := 0
  hsScanned := 0
  acc := []
  chunks := []
  pendingLen := 0
  need := 2
  msgReads := 0
  pending := []
  msgParts := []
  msgLen := 0
  inMsg := false
  banCheckAt := nextBanCheck cfg (env.now 3)
  checkedResponse := false
  killed := false
  lim := ⟨4,cfg.bMsg,cfg.bEvent,cfg.bReq,[],0⟩

/-- The options of `s.send`; one left undefined follows the incoming buffer. -/
structure Options where
  last : Option Bool := none
  flush : Option Bool := none
  deriving DecidableEq

structure Flags where
  last : Bool
  deriving DecidableEq

def Flags.options (flags : Flags) : Options := {last := some flags.last}

/-- A call the engine makes. `inject` is the `s.send` of a frame `violate` builds,
`send` any other; `inspected` marks a call of `inspect`, and whether it accepted
the message. -/
inductive Call where
  | send (data : Bytes) (options : Options)
  | inject (data : Bytes) (options : Options)
  | sendDownstream (data : Bytes)
  | verdict (v : Verdict)
  | inspected (message : Bytes) (accepted : Bool)
  deriving DecidableEq

inductive Direction where
  | upstream | downstream
  deriving DecidableEq

abbrev Trace := List (Direction × Call)

/-- `s.send` forwards in the direction of the callback it is called from. -/
def upstreamBytes : Direction × Call → Bytes
  | (.upstream,.send data _) => data
  | (.upstream,.inject data _) => data
  | _ => []

def clientBytes : Direction × Call → Bytes
  | (.downstream,.send data _) => data
  | (.downstream,.inject data _) => data
  | (_,.sendDownstream data) => data
  | _ => []

def forwardedUpBytes : Direction × Call → Bytes
  | (.upstream,.send data _) => data
  | _ => []

def forwardedDownBytes : Direction × Call → Bytes
  | (.downstream,.send data _) => data
  | _ => []

def toUpstream (trace : Trace) : Bytes := trace.flatMap upstreamBytes

def toClient (trace : Trace) : Bytes := trace.flatMap clientBytes

/-- The bytes the upstream receives other than in injected frames. -/
def forwardedUp (trace : Trace) : Bytes := trace.flatMap forwardedUpBytes

/-- The response bytes the client receives. -/
def forwardedDown (trace : Trace) : Bytes := trace.flatMap forwardedDownBytes

def verdicts (trace : Trace) : List Verdict :=
  trace.filterMap fun entry => match entry.2 with
    | .verdict v => some v
    | _ => none

def inspections (trace : Trace) : List (Bytes × Bool) :=
  trace.filterMap fun entry => match entry.2 with
    | .inspected message accepted => some (message,accepted)
    | _ => none

def acceptedMessages (trace : Trace) : List Bytes :=
  ((inspections trace).filter Prod.snd).map Prod.fst

section Append
variable (first second : Trace)

@[simp] theorem toUpstream_append :
    toUpstream (first ++ second) = toUpstream first ++ toUpstream second := List.flatMap_append
@[simp] theorem toClient_append :
    toClient (first ++ second) = toClient first ++ toClient second := List.flatMap_append
@[simp] theorem forwardedUp_append :
    forwardedUp (first ++ second) = forwardedUp first ++ forwardedUp second := List.flatMap_append
@[simp] theorem forwardedDown_append :
    forwardedDown (first ++ second) = forwardedDown first ++ forwardedDown second := List.flatMap_append
@[simp] theorem verdicts_append :
    verdicts (first ++ second) = verdicts first ++ verdicts second := List.filterMap_append
@[simp] theorem inspections_append :
    inspections (first ++ second) = inspections first ++ inspections second := List.filterMap_append
@[simp] theorem acceptedMessages_append :
    acceptedMessages (first ++ second) = acceptedMessages first ++ acceptedMessages second := by
  simp [acceptedMessages]

end Append

end FipsShield.Engine
