import FipsShield.Library.Json

/-! The service-agnostic core engine (`core/njs/shield_core.js`): reading the
port-keyed policy string, and the verdict every detection module emits. -/
namespace FipsShield.Core
open Text Numeral

/-- `num`: a knob that does not parse takes its default. -/
def num (v : Option Str) (dflt : Number) : Number :=
  let n := (v.map parseFloat).getD .nan
  if n = .nan then dflt else n

/-- `keyset`: an empty list is the default list. -/
def keyset (v : Option Str) (dflt : Str) : List Str :=
  let raw := if v = none ∨ v = some [] then dflt else v.getD []
  if raw = [] then []
  else ((raw.splitOn 0x2C).map trim).filter (· ≠ [])

/-- `policy`: the assignments of a policy string, in order. -/
def policy (raw : Option Str) : List (Str × Str) :=
  ((raw.getD []).splitOn 0x3B).filterMap fun part =>
    let eq := part.idxOf 0x3D
    if 0 < eq ∧ eq < part.length then some (trim (part.take eq),part.drop (eq + 1)) else none

/-- A policy property: the last assignment to it. -/
def lookup (p : List (Str × Str)) (key : String) : Option Str :=
  (p.reverse.find? (fun entry => entry.1 == str key)).map Prod.snd

/-- `p.key || dflt` for a text property. -/
def lookupOr (p : List (Str × Str)) (key dflt : String) : Str :=
  match lookup p key with
  | some [] | none => str dflt
  | some v => v

inductive Rule where
  | protocol | binaryFrame | oversizedHandshake | oversizedMessage | malformed
  | typeNotAllowed | kindDenied | msgRate | eventRate | reqRate
  | filterComplexity | tooManySubs | frameFlood | engineError | banned
  deriving DecidableEq

def Rule.text : Rule → String
  | .protocol => "protocol"
  | .binaryFrame => "binary-frame"
  | .oversizedHandshake => "oversized-handshake"
  | .oversizedMessage => "oversized-message"
  | .malformed => "malformed"
  | .typeNotAllowed => "type-not-allowed"
  | .kindDenied => "kind-denied"
  | .msgRate => "msg-rate"
  | .eventRate => "event-rate"
  | .reqRate => "req-rate"
  | .filterComplexity => "filter-complexity"
  | .tooManySubs => "too-many-subs"
  | .frameFlood => "frame-flood"
  | .engineError => "engine-error"
  | .banned => "banned"

inductive Layer where
  | ws
  deriving DecidableEq

def Layer.text : Layer → String
  | .ws => "ws"

/-- The fields of a verdict line: `verdict` also stores the rule in the session's
`shield_verdict` variable. -/
structure Verdict where
  ts : Int
  src : Str
  service : Str
  layer : Layer
  rule : Rule
  detail : Str
  deriving DecidableEq

example : lookup (policy (some (str "a=1;b =x=y;=z;a=2"))) "a" = some (str "2") := by decide +kernel

end FipsShield.Core
