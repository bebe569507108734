import FipsShield.Pump
import FipsShield.Library.Head

/-! The engine over a whole session: the handshake sniffer, the reads of an
upgraded session, the two callbacks `filter` registers, and runs of callbacks. -/
namespace FipsShield.Engine
open Text FipsShield.Core

/-- The bytes from a line feed to the end of an empty line right after it. -/
def emptyLine : Bytes → Option Nat
  | 0x0A::_ => some 2
  | 0x0D::0x0A::_ => some 3
  | _ => none

/-- The scan of headerBlockEnd from index i, over the bytes from there on. -/
def blockEnd (i : Nat) : Bytes → Option Nat
  | [] => none
  | byte::rest =>
    if byte ≠ 0x0A then blockEnd (i + 1) rest
    else match emptyLine rest with
    | some n => some (i + n)
    | none => blockEnd (i + 1) rest

/-- Indices below zero read no byte and are passed over. -/
def headerBlockEnd (buf : Bytes) (start : Int) : Option Nat :=
  blockEnd start.toNat (buf.drop start.toNat)

/-- A line feed that no carriage return precedes, after the byte given. -/
def bareLf (before : UInt8) : Bytes → Bool
  | [] => false
  | byte::rest => (byte == 0x0A && before != 0x0D) || bareLf byte rest

def hasBareLf (buf : Bytes) (upto : Nat) : Bool := bareLf 0 (buf.take upto)

/-- The pattern `\r\nupgrade:[ \t]*websocket`, without case, at the start of a text. -/
def upgradeHere (s : Str) : Bool :=
  (str "\r\nupgrade:").isPrefixOf (s.map Head.lower) &&
    (str "websocket").isPrefixOf (((s.map Head.lower).drop 10).dropWhile Head.isOws)

def upgradeTest (head : Str) : Bool := head.tails.any upgradeHere

/-- The pattern `^HTTP\/1\.[01] 101`. -/
def switchingTest (text : Str) : Bool :=
  (str "HTTP/1.0 101").isPrefixOf text || (str "HTTP/1.1 101").isPrefixOf text

/-- A state with the ban check due at another time and the clock read more often. -/
def St.clocked (st : St) (banCheckAt : Number) (ticks : Nat) : St :=
  {st with banCheckAt,lim := {st.lim with ticks}}

theorem clocked_alive {st : St} (alive : st.killed = false) (banCheckAt : Number) (ticks : Nat) :
    (st.clocked banCheckAt ticks).killed = false := alive

/-- The mid-session ban check: what it answers or throws, and the state after it. -/
def banCheck (env : Env) (cfg : Cfg) (st : St) : Except Str Bool × St :=
  if st.mode ≠ .plain ∧ cfg.banFile ≠ [] then
    let now := env.now st.lim.ticks
    let ticks := st.lim.ticks + 1
    if st.banCheckAt ≤ (now : Number) then (env.isBanned ticks,st.clocked (nextBanCheck cfg now) ticks)
    else (.ok false,st.clocked st.banCheckAt ticks)
  else (.ok false,st)

/-- A session whose handshake asks for WebSocket: what follows the head is its accumulator. -/
def upgraded (st : St) (stop : Nat) : St := {st with hs := [],mode := .ws,acc := st.hs.drop stop}

def passing (st : St) : St := {st with hs := [],mode := .plain}

/-- The head is forwarded, and the session goes on in the mode it asks for. -/
def classify (env : Env) (cfg : Cfg) (st : St) (stop : Nat) : St × List Call :=
  let head := Text.toString (Buffer.slice st.hs 0 stop)
  let rest := st.hs.drop stop
  let forward := Call.send (fromString head) {}
  if upgradeTest head then
    let pumped := pump env cfg (upgraded st stop)
    (pumped.1,forward::pumped.2)
  else
    (passing st,if rest ≠ [] then [forward,.send rest {}] else [forward])

def scanned (st : St) (data : Bytes) : St :=
  { st with
    hs := st.hs ++ data
    hsReads := st.hsReads + 1
    hsScanned := (st.hs ++ data).length }

theorem scanned_alive {st : St} (alive : st.killed = false) (data : Bytes) : (scanned st data).killed = false := alive

/-- A read in handshake mode; the flag tells whether `onData` runs on to its end. -/
def handshake (env : Env) (cfg : Cfg) (st : St) (data : Bytes) : St × List Call × Bool :=
  if cfg.maxHsReads < (st.hsReads + 1 : Nat) then
    let cut := violate env cfg {st with hsReads := st.hsReads + 1} .protocol (str "handshake-drip")
    (cut.1,cut.2,false)
  else if maxHandshake < (st.hs ++ data).length then
    let cut := violate env cfg {st with hs := st.hs ++ data,hsReads := st.hsReads + 1}
      .oversizedHandshake []
    (cut.1,cut.2,false)
  else match headerBlockEnd (st.hs ++ data) (st.hsScanned - 2) with
  | none => (scanned st data,[],false)
  | some stop =>
    if hasBareLf (st.hs ++ data) stop then
      let cut := violate env cfg (scanned st data) .protocol (str "bare-lf-in-handshake")
      (cut.1,cut.2,false)
    else
      let classified := classify env cfg (scanned st data) stop
      (classified.1,classified.2,true)

def msgRead (st : St) : St := {st with msgReads := st.msgReads + 1}

theorem msgRead_alive {st : St} (alive : st.killed = false) : (msgRead st).killed = false := alive

def buffered (st : St) (data : Bytes) : St :=
  { msgRead st with
    chunks := st.chunks ++ [data]
    pendingLen := st.pendingLen + data.length }

def joined (st : St) : St :=
  {st with acc := st.acc ++ st.chunks.flatten,chunks := [],pendingLen := 0}

def receive (env : Env) (cfg : Cfg) (st : St) (data : Bytes) : St × List Call × Bool :=
  if cfg.maxMsgReads < (st.msgReads + 1 : Nat) then
    let cut := violate env cfg (msgRead st) .frameFlood (str "message-drip")
    (cut.1,cut.2,false)
  else if st.acc.length + (st.pendingLen + data.length) < st.need then (buffered st data,[],false)
  else
    let pumped := pump env cfg (joined (buffered st data))
    (pumped.1,pumped.2,true)

/-- A read, by the mode of the session; an empty one does nothing. -/
def read (env : Env) (cfg : Cfg) (st : St) (data : Bytes) : St × List Call × Bool :=
  if data = [] then (st,[],true)
  else if st.mode = .handshake then handshake env cfg st data
  else receive env cfg st data

def propagate (flags : Flags) (st : St) : List Call :=
  if flags.last && !st.killed then [.send [] {last := some true}] else []

def finish (flags : Flags) (done : St × List Call × Bool) : St × List Call :=
  (done.1,if done.2.2 then done.2.1 ++ propagate flags done.1 else done.2.1)

/-- `onData`; an exception, which only the ban check throws, comes with the state it leaves. -/
def onData (env : Env) (cfg : Cfg) (st : St) (data : Bytes) (flags : Flags) :
    Except (Str × St) (St × List Call) :=
  if st.killed then .ok (st,[])
  else
    let checked := banCheck env cfg st
    match checked.1 with
    | .error e => .error (e,checked.2)
    | .ok true => .ok (violate env cfg checked.2 .banned (str "session-cut"))
    | .ok false =>
      if st.mode = .plain then .ok (checked.2,[.send data flags.options])
      else .ok (finish flags (read env cfg checked.2 data))

/-- The callback on data from the client. -/
def upstream (env : Env) (cfg : Cfg) (st : St) (data : Bytes) (flags : Flags) : St × List Call :=
  match onData env cfg st data flags with
  | .ok done => done
  | .error (e,st) => violate env cfg st .engineError e

def latched (st : St) : St := {st with checkedResponse := true}

theorem latched_alive {st : St} (alive : st.killed = false) : (latched st).killed = false := alive

/-- The callback on data from the upstream; nothing in it throws. -/
def downstream (env : Env) (cfg : Cfg) (st : St) (data : Bytes) (flags : Flags) : St × List Call :=
  if st.mode = .plain ∧ st.checkedResponse = false ∧ data ≠ [] then
    if switchingTest (Text.toString (Buffer.slice data 0 16)) then
      violate env cfg (latched st) .protocol (str "unclassified-upgrade")
    else (latched st,[.send data flags.options])
  else (st,[.send data flags.options])

inductive Callback where
  | upstream (data : Bytes) (flags : Flags)
  | downstream (data : Bytes) (flags : Flags)
  deriving DecidableEq

def Callback.direction : Callback → Direction
  | .upstream _ _ => .upstream
  | .downstream _ _ => .downstream

def respond (env : Env) (cfg : Cfg) (st : St) : Callback → St × List Call
  | .upstream data flags => upstream env cfg st data flags
  | .downstream data flags => downstream env cfg st data flags

def callback (env : Env) (cfg : Cfg) (st : St) (c : Callback) : St × Trace :=
  ((respond env cfg st c).1,(respond env cfg st c).2.map (Prod.mk c.direction))

/-- A session: the state after its callbacks and the calls they made. -/
def session (env : Env) (callbacks : List Callback) : St × Trace :=
  Transducer.run (callback env (readCfg env)) (filter env (readCfg env)) callbacks

def Callback.sent : Callback → Bytes
  | .upstream data _ => data
  | .downstream _ _ => []

def Callback.answer : Callback → Bytes
  | .upstream _ _ => []
  | .downstream data _ => data

def clientStream (callbacks : List Callback) : Bytes := callbacks.flatMap Callback.sent

def responseStream (callbacks : List Callback) : Bytes := callbacks.flatMap Callback.answer

/-! Sample data for runs on fixed inputs. -/

/-- A listener with this policy, on a clock that stands still, with nobody banned. -/
def listener (policy : String) : Env where
  policy := some (str policy)
  remoteAddress := str "192.0.2.1"
  now := fun _ => 0
  isBanned := fun _ => .ok false

def bytes (s : String) : Bytes := fromString (str s)

def sends (data : Bytes) : Callback := .upstream data ⟨false⟩

def answers (data : Bytes) : Callback := .downstream data ⟨false⟩

def upgradeRequest : Bytes := bytes "GET / HTTP/1.1\r\nUpgrade: websocket\r\n\r\n"

def plainRequest : Bytes := bytes "GET / HTTP/1.1\r\nHost: relay\r\n\r\n"

def switching : Bytes := bytes "HTTP/1.1 101 Switching Protocols\r\n\r\n"

def message (text : String) : Bytes := framed opText (bytes text) true

end FipsShield.Engine
