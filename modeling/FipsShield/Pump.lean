import FipsShield.Inspect

/-! The frame loop (`pump`): what it waits for, what it refuses, and the frames
it takes off the accumulator. -/
namespace FipsShield.Engine
open Text FipsShield.Core Buffer

inductive Field where
  | wait (need : Nat)
  | refuse (v : Violation)
  | extent (off len : Nat)
  deriving DecidableEq

inductive Header where
  | wait (need : Nat)
  | refuse (v : Violation)
  | frame (fin : Bool) (op off len : Nat)
  deriving DecidableEq

/-- The length field: where it ends and the payload length it gives. -/
def lengthField (acc : Bytes) : Field :=
  let len := Frame.shortLength acc
  if len = 126 then
    if acc.length < 4 then .wait 4 else .extent 4 (readUInt16BE acc 2)
  else if len = 127 then
    if acc.length < 10 then .wait 10
    else if readUInt32BE acc 2 ≠ 0 then .refuse ⟨.oversizedMessage,str "64bit-length"⟩
    else .extent 10 (readUInt32BE acc 6)
  else .extent 2 len

/-- Why a frame of this kind and length is refused where the session stands. -/
def refused (cfg : Cfg) (inMsg : Bool) (msgLen : Nat) (fin : Bool) (op len : Nat) : Option Violation :=
  if 8 ≤ op then
    if !fin || 125 < len then some ⟨.protocol,str "bad-control-frame"⟩ else none
  else if op = opBin then some ⟨.binaryFrame,[]⟩
  else if op ≠ opText ∧ op ≠ opCont then some ⟨.protocol,labelled "opcode=" op⟩
  else if op = opText ∧ inMsg then some ⟨.protocol,str "text-before-fin"⟩
  else if op = opCont ∧ !inMsg then some ⟨.protocol,str "unexpected-continuation"⟩
  else if cfg.maxMsg < (msgLen + len : Nat) then
    some ⟨.oversizedMessage,labelled "max=" cfg.maxMsg⟩
  else none

def frameEnd (off len : Nat) : Nat := off + 4 + len

def frameHeader (cfg : Cfg) (inMsg : Bool) (msgLen : Nat) (acc : Bytes) : Header :=
  if acc.length < 2 then .wait 2
  else
    let fin := byteAt acc 0 &&& 0x80 != 0
    let op := (byteAt acc 0 &&& 0x0F).toNat
    if byteAt acc 0 &&& 0x70 ≠ 0 then .refuse ⟨.protocol,str "rsv-bits-set"⟩
    else if byteAt acc 1 &&& 0x80 = 0 then .refuse ⟨.protocol,str "unmasked-client-frame"⟩
    else match lengthField acc with
    | .wait need => .wait need
    | .refuse v => .refuse v
    | .extent off len =>
      match refused cfg inMsg msgLen fin op len with
      | some v => .refuse v
      | none =>
        if acc.length < frameEnd off len then .wait (frameEnd off len) else .frame fin op off len

/-- Cuts a frame off the accumulator and holds it. -/
def hold (st : St) (stop : Nat) : St :=
  { st with
    need := 2
    acc := st.acc.drop stop
    pending := st.pending ++ [slice st.acc 0 stop] }

/-- A control frame is forwarded unless a data message is held in front of it. -/
def controlFrame (st : St) : St × List Call := if st.inMsg then (st,[]) else flush st

def newMessage (st : St) : St := {st with msgParts := [],msgLen := 0,msgReads := 0}

/-- A message is complete: it is inspected, and forwarded if the session outlives that. -/
def complete (env : Env) (cfg : Cfg) (st : St) : St × List Call :=
  let seen := inspect env cfg (newMessage st) st.msgParts.flatten
  if seen.1.killed then seen
  else ((flush seen.1).1,seen.2 ++ (flush seen.1).2)

def addPart (st : St) (fin : Bool) (len : Nat) (payload : Bytes) : St :=
  { st with
    msgParts := st.msgParts ++ [payload]
    msgLen := st.msgLen + len
    inMsg := !fin }

def dataFrame (env : Env) (cfg : Cfg) (st : St) (fin : Bool) (len : Nat) (payload : Bytes) :
    St × List Call :=
  if maxFragments < st.msgParts.length + 1 then
    violate env cfg st .frameFlood (labelled "fragments=" (st.msgParts.length + 1 : Nat))
  else if fin then complete env cfg (addPart st fin len payload)
  else (addPart st fin len payload,[])

def takeFrame (env : Env) (cfg : Cfg) (st : St) (fin : Bool) (op off len : Nat) : St × List Call :=
  let payload := Frame.unmask (slice st.acc off (off + 4)) (slice st.acc (off + 4) (frameEnd off len))
  let held := hold st (frameEnd off len)
  if maxPendingFrames < held.pending.length then
    violate env cfg held .frameFlood (labelled "pending=" held.pending.length)
  else if 8 ≤ op then controlFrame held
  else dataFrame env cfg held fin len payload

theorem violate_acc (env : Env) (cfg : Cfg) (st : St) (rule : Rule) (detail : Str) :
    (violate env cfg st rule detail).1.acc = st.acc := by
  unfold violate
  split_ifs <;> rfl

theorem inspect_acc (env : Env) (cfg : Cfg) (st : St) (buf : Bytes) :
    (inspect env cfg st buf).1.acc = st.acc := by
  cases found : (police env cfg st.lim buf).1 with
  | none =>
    rw [inspect_accepts found]
    rfl
  | some v =>
    rw [inspect_rejects found,violate_acc]
    rfl

theorem complete_acc (env : Env) (cfg : Cfg) (st : St) : (complete env cfg st).1.acc = st.acc := by
  simp only [complete]
  split_ifs <;> exact inspect_acc env cfg _ _

theorem dataFrame_acc (env : Env) (cfg : Cfg) (st : St) (fin : Bool) (len : Nat) (payload : Bytes) :
    (dataFrame env cfg st fin len payload).1.acc = st.acc := by
  unfold dataFrame
  split_ifs
  · exact violate_acc env cfg st _ _
  · exact complete_acc env cfg _
  · rfl

theorem takeFrame_acc (env : Env) (cfg : Cfg) (st : St) (fin : Bool) (op off len : Nat) :
    (takeFrame env cfg st fin op off len).1.acc = st.acc.drop (frameEnd off len) := by
  simp only [takeFrame]
  split_ifs
  · exact violate_acc env cfg _ _ _
  · unfold controlFrame
    split_ifs <;> rfl
  · exact dataFrame_acc env cfg _ fin len _

theorem shortLength_append {acc : Bytes} (filled : 2 ≤ acc.length) (c : Bytes) :
    Frame.shortLength (acc ++ c) = Frame.shortLength acc := by
  rw [Frame.shortLength,byteAt_append acc c 1 (by omega),Frame.shortLength]

theorem lengthField_wait {acc : Bytes} {need : Nat} (filled : 2 ≤ acc.length)
    (waits : lengthField acc = .wait need) :
    acc.length < need ∧
      ∀ c, (acc ++ c).length < need → lengthField (acc ++ c) = .wait need := by
  simp only [lengthField] at waits
  split_ifs at waits with two short eight short
  all_goals
    cases waits
    refine ⟨short,fun c few => ?_⟩
    simp only [lengthField,shortLength_append filled]
  · rw [if_pos two,if_pos few]
  · rw [if_neg two,if_pos eight,if_pos few]

theorem lengthField_append {acc : Bytes} (filled : 2 ≤ acc.length)
    (read : ∀ need, lengthField acc ≠ .wait need) (c : Bytes) :
    lengthField (acc ++ c) = lengthField acc := by
  simp only [lengthField,shortLength_append filled] at read ⊢
  by_cases two : Frame.shortLength acc = 126
  · have whole : 4 ≤ acc.length := by
      by_contra short
      exact read 4 (by rw [if_pos two,if_pos (by omega)])
    rw [if_pos two,if_pos two,List.length_append,if_neg (by omega),if_neg (by omega),
      readUInt16BE_append acc c 2 (by omega)]
  · rw [if_neg two,if_neg two]
    by_cases eight : Frame.shortLength acc = 127
    · have whole : 10 ≤ acc.length := by
        by_contra short
        exact read 10 (by rw [if_neg two,if_pos eight,if_pos (by omega)])
      have longer : ¬ (acc ++ c).length < 10 := by
        rw [List.length_append]
        omega
      rw [if_pos eight,if_pos eight,if_neg longer,if_neg (show ¬ acc.length < 10 by omega),
        readUInt32BE_append acc c 2 (by omega),readUInt32BE_append acc c 6 (by omega)]
    · rw [if_neg eight,if_neg eight]

theorem lengthField_extent {acc : Bytes} {off len : Nat} (filled : 2 ≤ acc.length)
    (read : lengthField acc = .extent off len) : Frame.extent acc = some (off,len) := by
  simp only [lengthField] at read
  simp only [Frame.extent]
  split_ifs at read with two short eight short large
  all_goals
    cases read
  · simp [two,short]
    omega
  · simp [eight,short]
    omega
  · simp [two,eight]
    omega

theorem lengthField_of_extent {acc : Bytes} {off len : Nat} (read : Frame.extent acc = some (off,len)) (fits : len < 2 ^ 32) :
    lengthField acc = .extent off len := by
  simp only [Frame.extent] at read
  simp only [lengthField]
  split_ifs at read with tiny two short eight short
  all_goals
    cases read
  · rw [if_pos two,if_neg short]
  · have high : readUInt32BE acc 2 = 0 := by omega
    rw [if_neg two,if_pos eight,if_neg short,high]
    simp
  · rw [if_neg two,if_neg eight]

/-- A header the loop waits for is longer than the accumulator, and the loop
waits for it as long as that is so. -/
theorem frameHeader_wait {cfg : Cfg} {inMsg : Bool} {msgLen need : Nat} {acc : Bytes}
    (waits : frameHeader cfg inMsg msgLen acc = .wait need) :
    acc.length < need ∧
      ∀ c, (acc ++ c).length < need → frameHeader cfg inMsg msgLen (acc ++ c) = .wait need := by
  by_cases tiny : acc.length < 2
  · rw [frameHeader,if_pos tiny] at waits
    cases waits
    exact ⟨tiny,fun c few => by rw [frameHeader,if_pos few]⟩
  · simp only [frameHeader,if_neg tiny] at waits
    split_ifs at waits with reserved unmasked
    cases field : lengthField acc with
    | wait size =>
      rw [field] at waits
      cases waits
      obtain ⟨short,still⟩ := lengthField_wait (by omega) field
      refine ⟨short,fun c few => ?_⟩
      simp only [frameHeader,byteAt_append acc c 0 (by omega),byteAt_append acc c 1 (by omega),
        still c few]
      rw [if_neg (by rw [List.length_append]; omega),if_neg reserved,if_neg unmasked]
    | refuse v =>
      rw [field] at waits
      contradiction
    | extent off len =>
      simp only [field] at waits
      split at waits
      · contradiction
      · next passed =>
        split_ifs at waits with short
        cases waits
        refine ⟨short,fun c few => ?_⟩
        have filled : 2 ≤ acc.length := by omega
        have same := lengthField_append filled (by simp [field]) c
        simp only [frameHeader,byteAt_append acc c 0 (by omega),byteAt_append acc c 1 (by omega),
          same,field,passed]
        rw [if_neg (by rw [List.length_append]; omega),if_neg reserved,if_neg unmasked,if_pos few]

theorem frameHeader_append {cfg : Cfg} {inMsg : Bool} {msgLen : Nat} {acc : Bytes}
    (ready : ∀ need, frameHeader cfg inMsg msgLen acc ≠ .wait need) (c : Bytes) :
    frameHeader cfg inMsg msgLen (acc ++ c) = frameHeader cfg inMsg msgLen acc := by
  have filled : 2 ≤ acc.length := by
    by_contra tiny
    exact ready 2 (by rw [frameHeader,if_pos (by omega)])
  have tiny : ¬ acc.length < 2 := by omega
  have longer : ¬ (acc ++ c).length < 2 := by
    rw [List.length_append]
    omega
  simp only [frameHeader,byteAt_append acc c 0 (by omega),byteAt_append acc c 1 (by omega),
    if_neg tiny,if_neg longer] at ready ⊢
  split_ifs at ready ⊢ with reserved unmasked
  · rfl
  · rfl
  · have same := lengthField_append filled (fun need waits => ready need (by rw [waits])) c
    rw [same]
    cases field : lengthField acc with
    | wait size => rfl
    | refuse v => rfl
    | extent off len =>
      simp only [field] at ready ⊢
      split
      · rfl
      · next passed =>
        simp only [passed] at ready
        have whole : frameEnd off len ≤ acc.length := by
          by_contra short
          exact ready _ (by rw [if_pos (by omega)])
        have longer : ¬ (acc ++ c).length < frameEnd off len := by
          rw [List.length_append]
          omega
        rw [if_neg longer,if_neg (by omega)]

def frameOf (acc : Bytes) (fin : Bool) (op off len : Nat) : Frame where
  fin
  reserved := 0
  opcode := op
  key := some (slice acc off (off + 4))
  payload := Frame.unmask (slice acc off (off + 4)) (slice acc (off + 4) (frameEnd off len))
  raw := slice acc 0 (frameEnd off len)

theorem frameHeader_frame {cfg : Cfg} {inMsg : Bool} {msgLen : Nat} {acc : Bytes} {fin : Bool}
    {op off len : Nat} (found : frameHeader cfg inMsg msgLen acc = .frame fin op off len) :
    frameEnd off len ≤ acc.length ∧ refused cfg inMsg msgLen fin op len = none ∧
      Frame.parse acc = some (frameOf acc fin op off len,acc.drop (frameEnd off len)) := by
  simp only [frameHeader] at found
  split_ifs at found with tiny reserved unmasked
  cases field : lengthField acc with
  | wait size =>
    rw [field] at found
    contradiction
  | refuse v =>
    rw [field] at found
    contradiction
  | extent off' len' =>
    simp only [field] at found
    split at found
    · contradiction
    · next passed =>
      split_ifs at found with short
      cases found
      have masked : Frame.masked acc = true := by simpa [Frame.masked] using unmasked
      have zero : byteAt acc 0 &&& 0x70 = 0 := by simpa using reserved
      refine ⟨by omega,passed,?_⟩
      rw [Frame.parse,lengthField_extent (by omega) field]
      simp only [Frame.payloadStart,masked,zero,if_true]
      rw [if_neg (by simpa [frameEnd] using short)]
      rfl

theorem frameEnd_pos (off len : Nat) : 0 < frameEnd off len := by
  unfold frameEnd
  omega

def pump (env : Env) (cfg : Cfg) (st : St) : St × List Call :=
  if st.killed then (st,[])
  else match _found : frameHeader cfg st.inMsg st.msgLen st.acc with
  | .wait need => ({st with need},[])
  | .refuse v => violate env cfg st v.rule v.detail
  | .frame fin op off len =>
    let taken := takeFrame env cfg st fin op off len
    let rest := pump env cfg taken.1
    (rest.1,taken.2 ++ rest.2)
termination_by st.acc.length
decreasing_by
  have whole := (frameHeader_frame _found).1
  have filled := frameEnd_pos off len
  rw [takeFrame_acc,List.length_drop]
  omega

section Equations
variable {env : Env} {cfg : Cfg} {st : St}

theorem pump_killed (killed : st.killed = true) : pump env cfg st = (st,[]) := by
  rw [pump,if_pos killed]

theorem pump_wait {need : Nat} (alive : st.killed = false)
    (waits : frameHeader cfg st.inMsg st.msgLen st.acc = .wait need) :
    pump env cfg st = ({st with need},[]) := by
  rw [pump,if_neg (by simp [alive])]
  split <;> simp_all

theorem pump_refuse {v : Violation} (alive : st.killed = false)
    (refuses : frameHeader cfg st.inMsg st.msgLen st.acc = .refuse v) :
    pump env cfg st = violate env cfg st v.rule v.detail := by
  rw [pump,if_neg (by simp [alive])]
  split <;> simp_all

theorem pump_frame {fin : Bool} {op off len : Nat} (alive : st.killed = false)
    (found : frameHeader cfg st.inMsg st.msgLen st.acc = .frame fin op off len) :
    pump env cfg st =
      ((pump env cfg (takeFrame env cfg st fin op off len).1).1,
        (takeFrame env cfg st fin op off len).2 ++
          (pump env cfg (takeFrame env cfg st fin op off len).1).2) := by
  rw [pump,if_neg (by simp [alive])]
  split <;> simp_all

/-- Induction over the loop: a cut session, each way out, and one more frame. -/
theorem pump_rule {motive : St → St × List Call → Prop}
    (dead : ∀ st, st.killed = true → motive st (st,[]))
    (wait : ∀ (st : St) need, st.killed = false →
      frameHeader cfg st.inMsg st.msgLen st.acc = .wait need → motive st ({st with need},[]))
    (refuse : ∀ (st : St) v, st.killed = false →
      frameHeader cfg st.inMsg st.msgLen st.acc = .refuse v →
      motive st (violate env cfg st v.rule v.detail))
    (frame : ∀ (st : St) fin op off len, st.killed = false →
      frameHeader cfg st.inMsg st.msgLen st.acc = .frame fin op off len →
      motive (takeFrame env cfg st fin op off len).1
        (pump env cfg (takeFrame env cfg st fin op off len).1) →
      motive st ((pump env cfg (takeFrame env cfg st fin op off len).1).1,
        (takeFrame env cfg st fin op off len).2 ++
          (pump env cfg (takeFrame env cfg st fin op off len).1).2))
    (st : St) : motive st (pump env cfg st) := by
  induction size : st.acc.length using Nat.strongRecOn generalizing st with
  | ind n ih =>
    cases killed : st.killed with
    | true =>
      rw [pump_killed killed]
      exact dead st killed
    | false =>
      cases header : frameHeader cfg st.inMsg st.msgLen st.acc with
      | wait need =>
        rw [pump_wait killed header]
        exact wait st need killed header
      | refuse v =>
        rw [pump_refuse killed header]
        exact refuse st v killed header
      | frame fin op off len =>
        have whole := (frameHeader_frame header).1
        have filled := frameEnd_pos off len
        have shorter : (takeFrame env cfg st fin op off len).1.acc.length < n := by
          rw [takeFrame_acc,List.length_drop]
          omega
        rw [pump_frame killed header]
        exact frame st fin op off len killed header (ih _ shorter _ rfl)

end Equations

end FipsShield.Engine
