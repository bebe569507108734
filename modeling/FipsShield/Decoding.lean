import FipsShield.Buffering

/-! The frames that `wsFrame` builds, as `pump` reads them: whole, with more behind them, and in
pieces. -/
namespace FipsShield.Engine
open Text FipsShield.Core Buffer

/-- What `pump` does with a frame that it holds. -/
def handle (env : Env) (cfg : Cfg) (held : St) (fin : Bool) (op : Nat) (payload : Bytes) : St × List Call :=
  if maxPendingFrames < held.pending.length then
    violate env cfg held .frameFlood (labelled "pending=" held.pending.length)
  else if 8 ≤ op then controlFrame held
  else dataFrame env cfg held fin payload.length payload

def onward (env : Env) (cfg : Cfg) (taken : St × List Call) : St × List Call :=
  ((pump env cfg taken.1).1,taken.2 ++ (pump env cfg taken.1).2)

/-- The reads of an upgraded session, one after another. -/
def receives (env : Env) (cfg : Cfg) (st : St) (pieces : List Bytes) : St × List Call :=
  Transducer.run (fun st data => ((receive env cfg st data).1,(receive env cfg st data).2.1)) st pieces

/-- A session that has taken its last frame, and nothing after it. -/
structure Between (st : St) : Prop where
  alive : st.killed = false
  acc : st.acc = []
  chunks : st.chunks = []
  pendingLen : st.pendingLen = 0
  need : st.need = 2

/-- The session where some bytes have been received since, in some reads. -/
def collecting (st : St) (acc : Bytes) (chunks : List Bytes) (need reads : Nat) : St :=
  {st with acc,chunks,pendingLen := chunks.flatten.length,need,msgReads := st.msgReads + reads}

/-- What has been received is the bytes given, and the loop waits for no more than the frame. -/
def Collects (st : St) (frame seen : Bytes) (reads : Nat) (s : St) : Prop :=
  ∃ acc chunks need, s = collecting st acc chunks need reads ∧ acc ++ chunks.flatten = seen ∧ need ≤ frame.length

theorem buffered_collecting (st : St) (acc data : Bytes) (chunks : List Bytes) (need reads : Nat) :
    buffered (collecting st acc chunks need reads) data = collecting st acc (chunks ++ [data]) need (reads + 1) := by
  simp [buffered,msgRead,collecting,Nat.add_assoc]

theorem joined_collecting (st : St) (acc data : Bytes) (chunks : List Bytes) (need reads : Nat) :
    joined (buffered (collecting st acc chunks need reads) data) =
      collecting st (acc ++ chunks.flatten ++ data) [] need (reads + 1) := by
  rw [buffered_collecting]
  simp [joined,collecting]

theorem Between.start {st : St} (between : Between st) : st = collecting st [] [] 2 0 := by
  obtain ⟨_,acc,chunks,pendingLen,need⟩ := between
  cases st
  simp_all [collecting]

theorem takeFrame_handle (env : Env) (cfg : Cfg) {st : St} {fin : Bool} {op off : Nat} {f : Frame} {rest : Bytes}
    (found : frameHeader cfg st.inMsg st.msgLen st.acc = .frame fin op off f.payload.length)
    (parsed : Frame.parse st.acc = some (f,rest)) :
    takeFrame env cfg st fin op off f.payload.length =
      handle env cfg {st with need := 2,acc := rest,pending := st.pending ++ [f.raw]} fin op f.payload := by
  obtain ⟨_,_,own⟩ := frameHeader_frame found
  obtain ⟨same,left⟩ := Prod.mk.inj (Option.some.inj (parsed.symm.trans own))
  have payload := congrArg Frame.payload same
  have raw := congrArg Frame.raw same
  simp only [frameOf] at payload raw
  simp only [takeFrame,handle,hold,← payload,← raw,left]

theorem encoded_end (op : Nat) (payload : Bytes) :
    frameEnd (frameHead op true payload.length).length payload.length = (encoded op true payload).length := by
  simp only [encoded,zeroKey,frameEnd,List.length_append,List.length_cons,List.length_nil,if_true]
  omega

section Encoded
variable {env : Env} {cfg : Cfg} {inMsg : Bool} {msgLen op : Nat} {payload : Bytes}
  (small : op < 16) (fits : payload.length < 65536)
  (admitted : refused cfg inMsg msgLen true op payload.length = none)
include small fits admitted

theorem encoded_header : frameHeader cfg inMsg msgLen (encoded op true payload) =
    .frame true op (frameHead op true payload.length).length payload.length := by
  obtain ⟨fin,reserved,opcode⟩ := head_first small true payload.length (zeroKey true ++ payload)
  have mask := (head_second op true payload.length (zeroKey true ++ payload)).2
  have extent := head_extent op true fits (zeroKey true ++ payload)
  rw [← encoded] at fin reserved opcode mask extent
  have field := lengthField_of_extent extent (by omega)
  have filled : ¬ (encoded op true payload).length < 2 := by
    have positive := Frame.extent_bounds extent
    omega
  have final : (byteAt (encoded op true payload) 0 &&& 0x80 != 0) = true := bne_iff_ne.mpr fin
  have key : ¬ byteAt (encoded op true payload) 1 &&& 0x80 = 0 := by simpa [Frame.masked] using mask
  rw [frameHeader,if_neg filled]
  simp only [final,reserved,opcode,field,admitted,encoded_end]
  simp [key]

/-- Of a part of the frame the loop waits for more, and never for more than the frame. -/
theorem encoded_waits {part : Bytes} (starts : part <+: encoded op true payload)
    (proper : part.length < (encoded op true payload).length) : ∃ need, frameHeader cfg inMsg msgLen part = .wait need ∧
      part.length < need ∧ need ≤ (encoded op true payload).length := by
  have whole := encoded_header small fits admitted
  have ends := encoded_end op payload
  obtain ⟨rest,split⟩ := starts
  by_cases waiting : ∃ need, frameHeader cfg inMsg msgLen part = .wait need
  · obtain ⟨need,waits⟩ := waiting
    obtain ⟨short,still⟩ := frameHeader_wait waits
    refine ⟨need,waits,short,?_⟩
    by_contra more
    have waits' := still rest (by rw [split]; omega)
    rw [split,whole] at waits'
    cases waits'
  · have ready : ∀ need, frameHeader cfg inMsg msgLen part ≠ .wait need := fun need waits => waiting ⟨need,waits⟩
    have same := frameHeader_append ready rest
    rw [split,whole] at same
    have inside := (frameHeader_frame same.symm).1
    omega

end Encoded

section Runs
variable {env : Env} {cfg : Cfg} {st : St} {op : Nat} {payload : Bytes}
  (small : op < 16) (fits : payload.length < 65536) (alive : st.killed = false)
  (admitted : refused cfg st.inMsg st.msgLen true op payload.length = none)
include small fits alive admitted

theorem encoded_pump {more : Bytes} (acc : st.acc = encoded op true payload ++ more) :
    pump env cfg st = onward env cfg (handle env cfg
      {st with need := 2,acc := more,pending := st.pending ++ [encoded op true payload]} true op payload) := by
  have own := encoded_header small fits admitted
  have found : frameHeader cfg st.inMsg st.msgLen st.acc =
      .frame true op (frameHead op true payload.length).length payload.length := by
    rw [acc,frameHeader_append (by simp [own]),own]
  have parsed : Frame.parse st.acc = some (finalFrame op true payload,more) := by
    rw [acc]
    exact Frame.parse_append (encoded_parse small true fits) more
  have taken := takeFrame_handle env cfg found parsed
  rw [pump_frame alive found]
  exact congrArg (onward env cfg) taken

/-- A part of the frame is kept, and nothing is done with it. -/
theorem receive_collects {s : St} {seen data : Bytes} {reads : Nat}
    (collects : Collects st (encoded op true payload) seen reads s)
    (starts : seen ++ data <+: encoded op true payload) (proper : (seen ++ data).length < (encoded op true payload).length)
    (budget : ¬ cfg.maxMsgReads < (st.msgReads + reads + 1 : Nat)) :
    (receive env cfg s data).2.1 = [] ∧
      Collects st (encoded op true payload) (seen ++ data) (reads + 1) (receive env cfg s data).1 := by
  obtain ⟨acc,chunks,need,rfl,rfl,least⟩ := collects
  have within : ¬ cfg.maxMsgReads < ((collecting st acc chunks need reads).msgReads + 1 : Nat) := budget
  rw [receive,if_neg within]
  split_ifs with few
  · rw [buffered_collecting]
    exact ⟨rfl,acc,chunks ++ [data],need,rfl,by simp,least⟩
  · obtain ⟨need',waits,_,least'⟩ := encoded_waits small fits admitted starts proper
    have pumped := @pump_wait env cfg (collecting st (acc ++ chunks.flatten ++ data) [] need (reads + 1)) need' alive waits
    simp only [joined_collecting,pumped]
    exact ⟨trivial,acc ++ chunks.flatten ++ data,[],need',rfl,by simp,least'⟩

theorem receives_collects {pieces : List Bytes} (starts : pieces.flatten <+: encoded op true payload)
    (proper : pieces.flatten.length < (encoded op true payload).length) (between : Between st)
    (budget : ¬ cfg.maxMsgReads < (st.msgReads + pieces.length : Nat)) :
    (receives env cfg st pieces).2 = [] ∧
      Collects st (encoded op true payload) pieces.flatten pieces.length (receives env cfg st pieces).1 := by
  induction pieces using List.reverseRecOn with
  | nil =>
    obtain ⟨need,waits,_,least⟩ := encoded_waits small fits admitted starts proper
    cases waits
    exact ⟨rfl,[],[],2,between.start,rfl,least⟩
  | append_singleton earlier data ih =>
    rw [List.flatten_concat] at starts proper ⊢
    rw [List.length_append,List.length_singleton] at budget ⊢
    have before : earlier.flatten <+: encoded op true payload := (List.prefix_append _ _).trans starts
    have shorter : earlier.flatten.length < (encoded op true payload).length := by
      rw [List.length_append] at proper
      omega
    have fewer : ¬ cfg.maxMsgReads < (st.msgReads + earlier.length : Nat) := fun exceeded =>
      budget (Number.lt_natCast_trans exceeded (by omega))
    obtain ⟨silent,collects⟩ := ih before shorter fewer
    obtain ⟨silent',collects'⟩ := receive_collects small fits alive admitted collects starts proper budget
    rw [receives,Transducer.run_concat,← receives]
    exact ⟨by rw [silent]; exact silent',collects'⟩

/-- In pieces, the last of which ends the frame, the frame is handled as it is at once. -/
theorem encoded_pieces {early : List Bytes} {final more : Bytes} (between : Between st)
    (stream : early.flatten ++ final = encoded op true payload ++ more)
    (proper : early.flatten.length < (encoded op true payload).length)
    (budget : ¬ cfg.maxMsgReads < (st.msgReads + early.length + 1 : Nat)) :
    receives env cfg st (early ++ [final]) = onward env cfg (handle env cfg
      {st with need := 2,acc := more,pending := st.pending ++ [encoded op true payload],msgReads := st.msgReads + early.length + 1}
      true op payload) := by
  have starts : early.flatten <+: encoded op true payload :=
    List.prefix_of_prefix_length_le ⟨final,stream⟩ (List.prefix_append _ _) proper.le
  have fewer : ¬ cfg.maxMsgReads < (st.msgReads + early.length : Nat) := fun exceeded =>
    budget (Number.lt_natCast_trans exceeded (by omega))
  have collected : (receives env cfg st early).2 = [] ∧ _ :=
    receives_collects small fits alive admitted starts proper between fewer
  obtain ⟨silent,acc,chunks,need,same,seen,least⟩ := collected
  have within : ¬ cfg.maxMsgReads < ((collecting st acc chunks need early.length).msgReads + 1 : Nat) := budget
  have received : acc ++ chunks.flatten ++ final = encoded op true payload ++ more := by rw [seen,stream]
  have whole : ¬ (collecting st acc chunks need early.length).acc.length +
      ((collecting st acc chunks need early.length).pendingLen + final.length) <
        (collecting st acc chunks need early.length).need := by
    change ¬ acc.length + (chunks.flatten.length + final.length) < need
    have sizes := congrArg List.length received
    simp only [List.length_append] at sizes
    omega
  have last : receive env cfg (collecting st acc chunks need early.length) final =
      ((pump env cfg (collecting st (encoded op true payload ++ more) [] need (early.length + 1))).1,
        (pump env cfg (collecting st (encoded op true payload ++ more) [] need (early.length + 1))).2,true) := by
    rw [receive,if_neg within,if_neg whole]
    simp only [joined_collecting,received]
  have held : {collecting st (encoded op true payload ++ more) [] need (early.length + 1) with
        need := 2,acc := more,pending := st.pending ++ [encoded op true payload]} =
      {st with need := 2,acc := more,pending := st.pending ++ [encoded op true payload],msgReads := st.msgReads + early.length + 1} := by
    have chunks := between.chunks
    have pendingLen := between.pendingLen
    simp [collecting,chunks,pendingLen,Nat.add_assoc]
  have pumped := @encoded_pump env cfg (collecting st (encoded op true payload ++ more) [] need (early.length + 1))
    op payload small fits alive admitted more rfl
  rw [receives,Transducer.run_concat,← receives,silent,same,List.nil_append]
  simp only [last]
  rw [pumped]
  exact congrArg (fun held => onward env cfg (handle env cfg held true op payload)) held

end Runs

/-- A frame that is built is read back by the grammar with nothing left over; a masked one that
the loop admits it handles with the same opcode and payload, whatever follows it and however it
is cut into reads. -/
theorem wsFrame_decodes {op : Nat} (small : op < 16) {payload : Bytes} (fits : payload.length < 65536) :
    (∀ masked, ∃ f, wsFrame op payload masked = .ok f.raw ∧ Frame.parse f.raw = some (f,[]) ∧ f.fin = true ∧
        f.reserved = 0 ∧ f.opcode = op ∧ f.key.isSome = masked ∧ f.payload = payload) ∧
      ∃ bytes, wsFrame op payload true = .ok bytes ∧ ∀ env cfg st, st.killed = false →
        refused cfg st.inMsg st.msgLen true op payload.length = none →
        (∀ more, st.acc = bytes ++ more → pump env cfg st =
          onward env cfg (handle env cfg {st with need := 2,acc := more,pending := st.pending ++ [bytes]} true op payload)) ∧
        ∀ early final more, Between st → early.flatten ++ final = bytes ++ more → early.flatten.length < bytes.length →
          ¬ cfg.maxMsgReads < (st.msgReads + early.length + 1 : Nat) →
          receives env cfg st (early ++ [final]) = onward env cfg (handle env cfg
            {st with need := 2,acc := more,pending := st.pending ++ [bytes],msgReads := st.msgReads + early.length + 1}
            true op payload) := by
  refine ⟨fun masked => ?_,?_⟩
  · refine ⟨finalFrame op masked payload,wsFrame_encoded op masked fits,encoded_parse small masked fits,rfl,rfl,rfl,?_,rfl⟩
    cases masked <;> rfl
  · refine ⟨encoded op true payload,wsFrame_encoded op true fits,fun env cfg st alive admitted => ⟨?_,?_⟩⟩
    · exact fun more acc => encoded_pump small fits alive admitted acc
    · exact fun early final more between stream proper budget =>
        encoded_pieces small fits alive admitted between stream proper budget

def maskedText : Bytes := [0x81,0x82,0,0,0,0,0x68,0x69]

def fresh : St := {filter (listener "") (readCfg (listener "")) with need := 2}

/-- A text frame of two letters: parsed, decoded with the start of the next frame after it,
and decoded over three reads. -/
theorem wsFrame_decodes_text : (∃ f, wsFrame opText [0x68,0x69] false = .ok f.raw ∧ Frame.parse f.raw = some (f,[]) ∧
      f.fin = true ∧ f.reserved = 0 ∧ f.opcode = opText ∧ f.key.isSome = false ∧ f.payload = [0x68,0x69]) ∧
    pump (listener "") (readCfg (listener "")) {fresh with acc := maskedText ++ [0x81]} =
      onward (listener "") (readCfg (listener "")) (handle (listener "") (readCfg (listener ""))
        {fresh with acc := [0x81],pending := [maskedText]} true opText [0x68,0x69]) ∧
    receives (listener "") (readCfg (listener "")) fresh [[0x81],[0x82,0,0,0,0],[0x68,0x69,0x81]] =
      onward (listener "") (readCfg (listener "")) (handle (listener "") (readCfg (listener ""))
        {fresh with acc := [0x81],pending := [maskedText],msgReads := 3} true opText [0x68,0x69]) := by
  have admitted : refused (readCfg (listener "")) false 0 true opText 2 = none := by decide +kernel
  obtain ⟨parsed,bytes,built,handled⟩ := @wsFrame_decodes opText (by decide) [0x68,0x69] (by decide)
  have same : wsFrame opText [0x68,0x69] true = .ok maskedText := by decide +kernel
  obtain rfl : maskedText = bytes := Except.ok.inj (same.symm.trans built)
  refine ⟨parsed false,?_,?_⟩
  · exact (handled _ _ {fresh with acc := maskedText ++ [0x81]} rfl admitted).1 [0x81] rfl
  · exact (handled _ _ fresh rfl admitted).2 [[0x81],[0x82,0,0,0,0]] [0x68,0x69,0x81] [0x81] ⟨rfl,rfl,rfl,rfl,rfl⟩ rfl
      (by decide) (by decide +kernel)

end FipsShield.Engine
