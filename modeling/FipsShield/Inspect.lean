import FipsShield.Violate

/-! What `inspect` makes of a whole message: the rate buckets, the checks on each
message type, and the accounting of open subscriptions. -/
namespace FipsShield.Engine
open Text FipsShield.Core Json

structure Violation where
  rule : Rule
  detail : Str
  deriving DecidableEq

def labelled (label : String) (n : Number) : Str := str label ++ str n.text

def narrowing : List Str := ["ids","authors","kinds","since","until","search"].map str

def isNarrowing (ks : List Str) : Bool := ks.any fun k => k.head? == some 0x23 || narrowing.contains k

def longText (cfg : Cfg) : Json → Option Violation
  | .str s =>
    if cfg.maxFilterValue < (s.length : Number) then
      some ⟨.filterComplexity,labelled "value-len=" s.length⟩
    else none
  | _ => none

/-- The value of a filter key: each element of an array, or the value itself. -/
def longValue (cfg : Cfg) : Json → Option Violation
  | .arr vs => vs.findSome? (longText cfg)
  | v => longText cfg v

def valueItems : Json → Nat
  | .arr vs => vs.length
  | _ => 0

def overLimit (cfg : Cfg) (f : List (Str × Json)) : Option Violation :=
  match property f (str "limit") with
  | some (.num n) => if cfg.maxLimit < n then some ⟨.filterComplexity,labelled "limit=" n⟩ else none
  | _ => none

/-- One round of the loop of `checkFilters`: the items the filter adds. -/
def checkFilter (cfg : Cfg) : Option Json → Except Violation Nat
  | some (.obj f) =>
    let ks := keys f
    let values := ks.filterMap (property f)
    if cfg.requireNarrowing && !isNarrowing ks then
      .error ⟨.filterComplexity,str "unbounded-filter"⟩
    else match overLimit cfg f with
    | some v => .error v
    | none =>
      match values.findSome? (longValue cfg) with
      | some v => .error v
      | none => .ok (ks.length + (values.map valueItems).sum)
  | _ => .error ⟨.malformed,str "bad-filter"⟩

def filterItems (cfg : Cfg) : List (Option Json) → Except Violation Nat
  | [] => .ok 0
  | f::rest =>
    match checkFilter cfg f with
    | .error v => .error v
    | .ok items =>
      match filterItems cfg rest with
      | .error v => .error v
      | .ok others => .ok (items + others)

def checkFilters (cfg : Cfg) (filters : List (Option Json)) : Option Violation :=
  let nFilters := filters.length
  if nFilters < 1 then some ⟨.filterComplexity,str "no-filter"⟩
  else if cfg.maxFilters < (nFilters : Number) then
    some ⟨.filterComplexity,labelled "filters=" nFilters⟩
  else match filterItems cfg filters with
  | .error v => some v
  | .ok items =>
    if cfg.maxFilterItems < (items : Number) then some ⟨.filterComplexity,labelled "items=" items⟩
    else none

inductive Meter where
  | msg | event | req
  deriving DecidableEq

def Limits.bucket (lim : Limits) : Meter → Bucket
  | .msg => lim.bMsg
  | .event => lim.bEvent
  | .req => lim.bReq

def Limits.setBucket (lim : Limits) (b : Bucket) : Meter → Limits
  | .msg => {lim with bMsg := b}
  | .event => {lim with bEvent := b}
  | .req => {lim with bReq := b}

def Meter.rule : Meter → Rule
  | .msg => .msgRate
  | .event => .eventRate
  | .req => .reqRate

/-- `takeToken` on a bucket of the session, at the next reading of the clock. -/
def charge (env : Env) (lim : Limits) (meter : Meter) : Bool × Limits :=
  let taken := takeToken (lim.bucket meter) (env.now lim.ticks)
  (taken.1,{lim with ticks := lim.ticks + 1}.setBucket taken.2 meter)

/-- Goes on with the limits the charge leaves, or reports the bucket empty. -/
def paying (env : Env) (lim : Limits) (meter : Meter)
    (next : Limits → Option Violation × Limits) : Option Violation × Limits :=
  let paid := charge env lim meter
  if paid.1 then next paid.2 else (some ⟨meter.rule,[]⟩,paid.2)

/-- A subscription id: a text of one to sixty-four units. -/
def subscriptionId : Option Json → Option Str
  | some (.str sid) => if sid.length < 1 ∨ 64 < sid.length then none else some sid
  | _ => none

def openSub (cfg : Cfg) (lim : Limits) (sid : Str) : Option Violation × Limits :=
  if sid ∈ lim.subs then (none,lim)
  else if cfg.maxSubs ≤ (lim.subCount : Number) then
    (some ⟨.tooManySubs,labelled "max=" cfg.maxSubs⟩,lim)
  else (none,{lim with subs := sid::lim.subs,subCount := lim.subCount + 1})

def closeSub (lim : Limits) (sid : Str) : Limits :=
  if sid ∈ lim.subs then
    {lim with subs := lim.subs.filter (· ≠ sid),subCount := lim.subCount - 1}
  else lim

/-- What REQ, COUNT and NEG-OPEN share. -/
def query (env : Env) (cfg : Cfg) (lim : Limits) (sid : Option Json) (filters : List (Option Json))
    (opens : Bool) : Option Violation × Limits :=
  paying env lim .req fun lim =>
    match subscriptionId sid with
    | none => (some ⟨.malformed,str "bad-subscription-id"⟩,lim)
    | some sid =>
      match checkFilters cfg filters with
      | some v => (some v,lim)
      | none => if opens then openSub cfg lim sid else (none,lim)

/-! The branches of `inspect`; `args` is the message after its type. -/

def event (env : Env) (cfg : Cfg) (lim : Limits) (args : List Json) : Option Violation × Limits :=
  paying env lim .event fun lim =>
    match args.head? with
    | some (.obj ev) =>
      match property ev (str "kind") with
      | some (.num kind) =>
        if str kind.text ∈ cfg.kindDeny then (some ⟨.kindDenied,labelled "kind=" kind⟩,lim)
        else (none,lim)
      | _ => (some ⟨.malformed,str "bad-event"⟩,lim)
    | _ => (some ⟨.malformed,str "bad-event"⟩,lim)

def request (env : Env) (cfg : Cfg) (lim : Limits) (t : Str) (args : List Json) :
    Option Violation × Limits :=
  query env cfg lim args.head? (args.tail.map some) (t = str "REQ")

def negOpen (env : Env) (cfg : Cfg) (lim : Limits) (args : List Json) : Option Violation × Limits :=
  query env cfg lim args.head? [args.tail.head?] true

def auth (env : Env) (lim : Limits) : Option Violation × Limits :=
  paying env lim .event fun lim => (none,lim)

/-- CLOSE and NEG-CLOSE. -/
def close (lim : Limits) (args : List Json) : Option Violation × Limits :=
  match args.head? with
  | some (.str sid) => (none,closeSub lim sid)
  | _ => (none,lim)

def byType (env : Env) (cfg : Cfg) (lim : Limits) (t : Str) (args : List Json) :
    Option Violation × Limits :=
  if t = str "EVENT" then event env cfg lim args
  else if t = str "REQ" ∨ t = str "COUNT" then request env cfg lim t args
  else if t = str "NEG-OPEN" then negOpen env cfg lim args
  else if t = str "AUTH" then auth env lim
  else if t = str "CLOSE" ∨ t = str "NEG-CLOSE" then close lim args
  else (none,lim)

def asMessage : Json → Option (Str × List Json)
  | .arr (.str t::args) => some (t,args)
  | _ => none

/-- What `inspect` finds, and the limits it leaves. -/
def police (env : Env) (cfg : Cfg) (lim : Limits) (buf : Bytes) : Option Violation × Limits :=
  paying env lim .msg fun lim =>
    match Json.parse (Text.toString buf) with
    | none => (some ⟨.malformed,str "bad-json"⟩,lim)
    | some msg =>
      match asMessage msg with
      | none => (some ⟨.malformed,str "not-a-nostr-message"⟩,lim)
      | some (t,args) =>
        if t ∈ cfg.types then byType env cfg lim t args else (some ⟨.typeNotAllowed,t⟩,lim)

def inspect (env : Env) (cfg : Cfg) (st : St) (buf : Bytes) : St × List Call :=
  let found := police env cfg st.lim buf
  match found.1 with
  | none => (st.limited found.2,[.inspected buf true])
  | some v =>
    let cut := violate env cfg (st.limited found.2) v.rule v.detail
    (cut.1,.inspected buf false::cut.2)

theorem inspect_accepts {env : Env} {cfg : Cfg} {st : St} {buf : Bytes}
    (passed : (police env cfg st.lim buf).1 = none) :
    inspect env cfg st buf = (st.limited (police env cfg st.lim buf).2,[.inspected buf true]) := by
  simp only [inspect,passed]

theorem inspect_rejects {env : Env} {cfg : Cfg} {st : St} {buf : Bytes} {v : Violation}
    (found : (police env cfg st.lim buf).1 = some v) :
    inspect env cfg st buf =
      ((violate env cfg (st.limited (police env cfg st.lim buf).2) v.rule v.detail).1,
        .inspected buf false::
          (violate env cfg (st.limited (police env cfg st.lim buf).2) v.rule v.detail).2) := by
  simp only [inspect,found]

end FipsShield.Engine
