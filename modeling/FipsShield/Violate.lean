import FipsShield.Session
import FipsShield.Library.Frame

/-! How a session is cut: the frames `violate` injects in each direction and the
state it leaves, and the release of held frames (`flush`). -/
namespace FipsShield.Engine
open Text FipsShield.Core

def opCont : Nat := 0x0
def opText : Nat := 0x1
def opBin : Nat := 0x2
def opClose : Nat := 0x8

/-- A final frame; a masked one has the zero key, which leaves the payload as it is. -/
def wsFrame (op : Nat) (payload : Bytes) (masked : Bool) : Except Str Bytes :=
  let len := payload.length
  let mark : UInt8 := if masked then 0x80 else 0
  let key : Bytes := if masked then [0,0,0,0] else []
  if len < 126 then
    .ok ([0x80 ||| UInt8.ofNat op,UInt8.ofNat len ||| mark] ++ key ++ payload)
  else if len < 65536 then
    .ok ([0x80 ||| UInt8.ofNat op,126 ||| mark,UInt8.ofNat (len / 256),UInt8.ofNat len] ++ key ++ payload)
  else .error (str "Error: frame too large to encode")

def closePayload (code : Nat) (reason : String) : Bytes :=
  [UInt8.ofNat (code / 256),UInt8.ofNat code] ++ fromString (str reason)

def closeFrame (code : Nat) (reason : String) (masked : Bool) : Except Str Bytes :=
  wsFrame opClose (closePayload code reason) masked

/-- `JSON.stringify` of the array of the two texts. -/
def notice (rule : Rule) : Str :=
  str "[" ++ Json.quote (str "NOTICE") ++ str "," ++
    Json.quote (str "fips-shield: connection closed: " ++ str rule.text) ++ str "]"

/-- Makes a call with a frame, then the later ones; a frame that cannot be built
throws, and none of them is made. -/
def build (frame : Except Str Bytes) (call : Bytes → Call) (later : List Call) : List Call :=
  match frame with
  | .ok bytes => call bytes :: later
  | .error _ => []

/-- The frames a violation injects. -/
def closing (rule : Rule) : List Call :=
  build (wsFrame opText (fromString (notice rule)) false) .sendDownstream <|
  build (closeFrame 1008 rule.text false) .sendDownstream <|
  build (closeFrame 1008 rule.text true) (.inject · {flush := some true}) []

def verdictOf (env : Env) (cfg : Cfg) (st : St) (rule : Rule) (detail : Str) : Verdict where
  ts := env.now st.lim.ticks
  src := env.remoteAddress
  service := cfg.service
  layer := .ws
  rule
  detail

/-- The state a violation leaves: held data is dropped, and the verdict has read the clock. -/
def cut (st : St) : St :=
  { st with
    killed := true
    pending := []
    msgParts := []
    chunks := []
    pendingLen := 0
    lim := {st.lim with ticks := st.lim.ticks + 1} }

/-- An exception inside leaves `violate` with the session already cut, so the
`violate` of the handler that catches it does nothing. -/
def violate (env : Env) (cfg : Cfg) (st : St) (rule : Rule) (detail : Str) : St × List Call :=
  if st.killed then (st,[])
  else (cut st,.verdict (verdictOf env cfg st rule detail) :: closing rule)

/-- The calls that forward held frames; the last one flushes. -/
def flushCalls : List Bytes → List Call
  | [] => []
  | [raw] => [.send raw {flush := some true}]
  | raw::rest => .send raw {} :: flushCalls rest

def flush (st : St) : St × List Call := ({st with pending := []},flushCalls st.pending)

def framed (op : Nat) (payload : Bytes) (masked : Bool) : Bytes :=
  [0x80 ||| UInt8.ofNat op,UInt8.ofNat payload.length ||| if masked then 0x80 else 0] ++
    (if masked then [0,0,0,0] else []) ++ payload

theorem wsFrame_short (op : Nat) {payload : Bytes} (masked : Bool) (short : payload.length < 126) :
    wsFrame op payload masked = .ok (framed op payload masked) := by
  simp only [wsFrame,framed,if_pos short]

theorem closing_short (rule : Rule) :
    (fromString (notice rule)).length < 126 ∧ (closePayload 1008 rule.text).length < 126 := by
  cases rule <;> decide +kernel

/-- No frame of a violation is too large to encode. -/
theorem closing_eq (rule : Rule) : closing rule =
    [.sendDownstream (framed opText (fromString (notice rule)) false),
      .sendDownstream (framed opClose (closePayload 1008 rule.text) false),
      .inject (framed opClose (closePayload 1008 rule.text) true) {flush := some true}] := by
  obtain ⟨text,close⟩ := closing_short rule
  simp only [closing,closeFrame,wsFrame_short _ _ text,wsFrame_short _ _ close,build]

def injectedFrame (op : Nat) (payload : Bytes) (masked : Bool) : Frame where
  fin := true
  reserved := 0
  opcode := op
  key := if masked then some [0,0,0,0] else none
  payload
  raw := framed op payload masked

/-! ## What is encoded -/

section Encoded
variable (op : Nat) (masked : Bool)

/-- The bytes before the key: the short form of the length, or the form of two more bytes. -/
def frameHead (len : Nat) : Bytes :=
  let mark : UInt8 := if masked then 0x80 else 0
  (0x80 ||| UInt8.ofNat op)::(if len < 126 then [UInt8.ofNat len ||| mark]
    else [126 ||| mark,UInt8.ofNat (len / 256),UInt8.ofNat len])

def zeroKey : Bytes := if masked then [0,0,0,0] else []

def encoded (payload : Bytes) : Bytes := frameHead op masked payload.length ++ (zeroKey masked ++ payload)

/-- The frame that is encoded. -/
def finalFrame (payload : Bytes) : Frame where
  fin := true
  reserved := 0
  opcode := op
  key := if masked then some [0,0,0,0] else none
  payload
  raw := encoded op masked payload

theorem wsFrame_encoded {payload : Bytes} (short : payload.length < 65536) :
    wsFrame op payload masked = .ok (encoded op masked payload) := by
  simp only [wsFrame,if_pos short,encoded,frameHead,zeroKey]
  split_ifs <;> simp

theorem framed_encoded {payload : Bytes} (short : payload.length < 126) :
    framed op payload masked = encoded op masked payload := by
  simp [framed,encoded,frameHead,zeroKey,short]

private theorem first_byte {op : Nat} (small : op < 16) :
    (0x80 ||| UInt8.ofNat op) &&& 0x80 ≠ 0 ∧ (0x80 ||| UInt8.ofNat op) &&& 0x70 = 0 ∧
      ((0x80 ||| UInt8.ofNat op) &&& 0x0F).toNat = op := by
  revert op
  decide

private theorem second_byte (len : Nat) (short : len < 127) (masked : Bool) :
    ((UInt8.ofNat len ||| if masked then 0x80 else 0) &&& 0x7F).toNat = len ∧
      (((UInt8.ofNat len ||| if masked then 0x80 else 0) &&& 0x80) != 0) = masked := by
  revert len masked
  decide +kernel

theorem head_first {op : Nat} (small : op < 16) (masked : Bool) (len : Nat) (rest : Bytes) :
    Buffer.byteAt (frameHead op masked len ++ rest) 0 &&& 0x80 ≠ 0 ∧
      Buffer.byteAt (frameHead op masked len ++ rest) 0 &&& 0x70 = 0 ∧
      (Buffer.byteAt (frameHead op masked len ++ rest) 0 &&& 0x0F).toNat = op := first_byte small

theorem head_second (len : Nat) (rest : Bytes) :
    Frame.shortLength (frameHead op masked len ++ rest) = (if len < 126 then len else 126) ∧
      Frame.masked (frameHead op masked len ++ rest) = masked := by
  rw [Frame.shortLength,Frame.masked]
  by_cases short : len < 126
  · have second : Buffer.byteAt (frameHead op masked len ++ rest) 1 = UInt8.ofNat len ||| if masked then 0x80 else 0 := by
      simp [frameHead,short,Buffer.byteAt]
    rw [second,if_pos short]
    exact second_byte len (by omega) masked
  · have second : Buffer.byteAt (frameHead op masked len ++ rest) 1 = UInt8.ofNat 126 ||| if masked then 0x80 else 0 := by
      simp [frameHead,short,Buffer.byteAt]
    rw [second,if_neg short]
    exact second_byte 126 (by omega) masked

theorem head_long {len : Nat} (short : ¬ len < 126) (fits : len < 65536) (rest : Bytes) :
    (frameHead op masked len).length = 4 ∧ Buffer.readUInt16BE (frameHead op masked len ++ rest) 2 = len := by
  refine ⟨by simp [frameHead,short],?_⟩
  have high : Buffer.byteAt (frameHead op masked len ++ rest) 2 = UInt8.ofNat (len / 256) := by
    simp [frameHead,short,Buffer.byteAt]
  have low : Buffer.byteAt (frameHead op masked len ++ rest) 3 = UInt8.ofNat len := by
    simp [frameHead,short,Buffer.byteAt]
  rw [Buffer.readUInt16BE,high,low,UInt8.toNat_ofNat',UInt8.toNat_ofNat']
  omega

theorem head_extent {len : Nat} (fits : len < 65536) (rest : Bytes) :
    Frame.extent (frameHead op masked len ++ rest) = some ((frameHead op masked len).length,len) := by
  have size := (head_second op masked len rest).1
  by_cases short : len < 126
  · have two : (frameHead op masked len).length = 2 := by simp [frameHead,short]
    rw [if_pos short] at size
    rw [Frame.extent,size,two,if_neg (by rw [List.length_append]; omega),if_neg (by omega),if_neg (by omega)]
  · obtain ⟨four,value⟩ := head_long op masked short fits rest
    rw [if_neg short] at size
    rw [Frame.extent,size,four,if_neg (by rw [List.length_append]; omega),if_pos rfl,
      if_neg (by rw [List.length_append]; omega),value]

theorem zeroKey_zero (i : Nat) : Buffer.byteAt (zeroKey masked) i = 0 := by
  cases masked
  · rfl
  · simp only [Buffer.byteAt,zeroKey]
    rcases i with _ | _ | _ | _ | i <;> rfl

/-- A frame that is encoded is read back whole, and nothing is left over. -/
theorem encoded_parse {op : Nat} (small : op < 16) (masked : Bool) {payload : Bytes} (fits : payload.length < 65536) :
    Frame.parse (encoded op masked payload) = some (finalFrame op masked payload,[]) := by
  obtain ⟨fin,reserved,opcode⟩ := head_first small masked payload.length (zeroKey masked ++ payload)
  have mask := (head_second op masked payload.length (zeroKey masked ++ payload)).2
  have extent := head_extent op masked fits (zeroKey masked ++ payload)
  rw [← encoded] at fin reserved opcode mask extent
  have start : Frame.payloadStart (encoded op masked payload) (frameHead op masked payload.length).length =
      (frameHead op masked payload.length).length + (zeroKey masked).length := by
    rw [Frame.payloadStart,mask]
    cases masked <;> rfl
  have size : (encoded op masked payload).length =
      (frameHead op masked payload.length).length + (zeroKey masked).length + payload.length := by
    rw [encoded,List.length_append,List.length_append,Nat.add_assoc]
  have key : Buffer.slice (encoded op masked payload) (frameHead op masked payload.length).length
      ((frameHead op masked payload.length).length + (zeroKey masked).length) = zeroKey masked :=
    Buffer.slice_middle _ _ _
  have carried : Buffer.slice (encoded op masked payload)
      ((frameHead op masked payload.length).length + (zeroKey masked).length)
      ((frameHead op masked payload.length).length + (zeroKey masked).length + payload.length) = payload := by
    have between := Buffer.slice_middle (frameHead op masked payload.length ++ zeroKey masked) payload []
    rwa [List.append_nil,List.length_append,List.append_assoc] at between
  have final : (Buffer.byteAt (encoded op masked payload) 0 &&& 0x80 != 0) = true := bne_iff_ne.mpr fin
  rw [Frame.parse,extent]
  simp only [start,key,carried,size,lt_irrefl,if_false,Frame.unmask_zero (zeroKey_zero masked)]
  rw [← size,List.take_length,List.drop_length,final,reserved,opcode,mask,finalFrame]
  cases masked <;> rfl

end Encoded

theorem framed_parse {op : Nat} {payload : Bytes} (masked : Bool) (small : op < 16)
    (short : payload.length < 126) :
    Frame.parse (framed op payload masked) = some (injectedFrame op payload masked,[]) := by
  have whole := encoded_parse small masked (show payload.length < 65536 by omega)
  rw [finalFrame,← framed_encoded op masked short] at whole
  exact whole

end FipsShield.Engine
