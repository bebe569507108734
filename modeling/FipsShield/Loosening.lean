import FipsShield.Permissive

/-! Two sessions on the same bytes at the same times, under policies of which the second
is at least as permissive: the first forwards nothing that the second does not. -/
namespace FipsShield.Engine
open Text FipsShield.Core

theorem refused_loosens {p q : Cfg} (loosens : Loosens p q) {inMsg fin : Bool} {msgLen op len : Nat}
    (passed : refused p inMsg msgLen fin op len = none) : refused q inMsg msgLen fin op len = none := by
  unfold refused at passed ⊢
  split_ifs at passed ⊢ with control _ _ _ _ _ small large
  · rfl
  · exact absurd (Number.lt_of_le_of_lt loosens.maxMsg small) large
  · rfl

theorem frameHeader_loosens {p q : Cfg} (loosens : Loosens p q) {inMsg : Bool} {msgLen : Nat} {acc : Bytes}
    (passed : ∀ v, frameHeader p inMsg msgLen acc ≠ .refuse v) :
    frameHeader q inMsg msgLen acc = frameHeader p inMsg msgLen acc := by
  simp only [frameHeader] at passed ⊢
  split_ifs at passed ⊢
  · rfl
  · exact absurd rfl (passed _)
  · exact absurd rfl (passed _)
  · split
    · rfl
    · rfl
    · next off len field =>
      rw [field] at passed
      simp only at passed ⊢
      cases kept : refused p inMsg msgLen (Buffer.byteAt acc 0 &&& 0x80 != 0)
          (Buffer.byteAt acc 0 &&& 0x0F).toNat len with
      | some v => exact absurd (by rw [kept]) (passed v)
      | none => rw [refused_loosens loosens kept]

def Alongside (env : Env) (a b : St) : Prop :=
  ∃ banCheckAt lim, b = {a with banCheckAt,lim} ∧ Roomier env a.lim lim

/-- The stricter step leaves its session alive and the looser one alongside it, with the
same calls, or it ends it, having forwarded no more. -/
def Leads (env : Env) (one other : St × List Call) : Prop :=
  (one.1.killed = false ∧ Alongside env one.1 other.1 ∧ other.2 = one.2) ∨
    (one.1.killed = true ∧ forwardedBy one.2 <+: forwardedBy other.2)

section Steps
variable {env looser : Env} {p q : Cfg} {a b : St}

theorem Leads.violates (alive : a.killed = false) (rule : Rule) (detail : Str) (other : St × List Call) :
    Leads env (violate env p a rule detail) other := by
  rw [violate_alive env p alive]
  refine Or.inr ⟨rfl,?_⟩
  rw [(forwardedBy_closing _ _).1]
  exact List.nil_prefix

theorem Leads.then {first second first' second' : St × List Call} (one : Leads env first first')
    (later : first.1.killed = false → Alongside env first.1 first'.1 → Leads env second second')
    (stops : first.1.killed = true → second = (first.1,[])) :
    Leads env (second.1,first.2 ++ second.2) (second'.1,first'.2 ++ second'.2) := by
  rcases one with ⟨alive,alongside,same⟩ | ⟨killed,fewer⟩
  · rcases later alive alongside with ⟨alive,alongside,same'⟩ | ⟨killed,fewer⟩
    · exact Or.inl ⟨alive,alongside,by rw [same,same']⟩
    · refine Or.inr ⟨killed,?_⟩
      rw [same,forwardedBy_append,forwardedBy_append]
      exact (List.prefix_append_right_inj _).mpr fewer
  · rw [stops killed]
    refine Or.inr ⟨killed,?_⟩
    rw [List.append_nil,forwardedBy_append]
    exact fewer.trans (List.prefix_append _ _)

theorem Leads.after {one other : St × List Call} (leads : Leads env one other) (calls : List Call) :
    Leads env (one.1,calls ++ one.2) (other.1,calls ++ other.2) := by
  rcases leads with ⟨alive,alongside,same⟩ | ⟨killed,fewer⟩
  · exact Or.inl ⟨alive,alongside,by rw [same]⟩
  · refine Or.inr ⟨killed,?_⟩
    rw [forwardedBy_append,forwardedBy_append]
    exact (List.prefix_append_right_inj _).mpr fewer

/-- The same for a read, which both steps run to its end unless the stricter is cut. -/
def LeadsRead (env : Env) (one other : St × List Call × Bool) : Prop :=
  Leads env (one.1,one.2.1) (other.1,other.2.1) ∧ (one.1.killed = false → other.2.2 = one.2.2)

theorem LeadsRead.cut (alive : a.killed = false) (rule : Rule) (detail : Str)
    (other : St × List Call × Bool) : LeadsRead env ((violate env p a rule detail).1,
      (violate env p a rule detail).2,false) other := by
  refine ⟨.violates alive rule detail _,fun live => ?_⟩
  rw [violate_alive env p alive] at live
  cases live

theorem LeadsRead.finish {one other : St × List Call × Bool} (leads : LeadsRead env one other)
    (flags : Flags) : Leads env (finish flags one) (finish flags other) := by
  obtain ⟨⟨alive,alongside,same⟩ | ⟨killed,fewer⟩,ends⟩ := leads
  · have live : other.1.killed = one.1.killed := by
      obtain ⟨_,_,together,_⟩ := alongside
      rw [together]
    refine Or.inl ⟨alive,alongside,?_⟩
    simp only [Engine.finish,propagate,ends alive,live]
    simp only at same
    rw [same]
  · have dead : one.1.killed = true := killed
    have nothing : propagate flags one.1 = [] := by simp [propagate,dead]
    refine Or.inr ⟨killed,?_⟩
    simp only [Engine.finish,nothing,List.append_nil,ite_self]
    split_ifs
    · rw [forwardedBy_append]
      exact fewer.trans (List.prefix_append _ _)
    · exact fewer

theorem controlFrame_leads (alive : a.killed = false) (alongside : Alongside env a b) :
    Leads env (controlFrame a) (controlFrame b) := by
  obtain ⟨time,lim,rfl,roomier⟩ := alongside
  by_cases inMsg : a.inMsg = true
  · have within : St.inMsg {a with banCheckAt := time,lim} = true := inMsg
    rw [controlFrame,controlFrame,if_pos inMsg,if_pos within]
    exact Or.inl ⟨alive,⟨time,lim,rfl,roomier⟩,rfl⟩
  · have between : ¬ St.inMsg {a with banCheckAt := time,lim} = true := inMsg
    rw [controlFrame,controlFrame,if_neg inMsg,if_neg between]
    exact Or.inl ⟨alive,⟨time,lim,rfl,roomier⟩,rfl⟩

variable (clock : looser.now = env.now) (monotone : Monotone env.now) (loosens : Loosens p q)
include clock monotone loosens

theorem complete_leads (alive : a.killed = false) (alongside : Alongside env a b) :
    Leads env (complete env p a) (complete looser q b) := by
  obtain ⟨time,lim,rfl,roomier⟩ := alongside
  have live : St.killed {a with banCheckAt := time,lim} = false := alive
  cases found : (police env p a.lim a.msgParts.flatten).1 with
  | some v =>
    rw [complete_rejects env p alive found]
    refine Or.inr ⟨rfl,?_⟩
    rw [forwardedBy_inspected,(forwardedBy_closing _ _).1]
    exact List.nil_prefix
  | none =>
    obtain ⟨passed,left⟩ := police_allows clock monotone loosens roomier a.msgParts.flatten found
    rw [complete_accepts env p alive found,complete_accepts looser q live passed]
    exact Or.inl ⟨alive,⟨time,_,rfl,left⟩,rfl⟩

theorem dataFrame_leads (alive : a.killed = false) (alongside : Alongside env a b) (fin : Bool) (len : Nat)
    (payload : Bytes) : Leads env (dataFrame env p a fin len payload) (dataFrame looser q b fin len payload) := by
  obtain ⟨time,lim,rfl,roomier⟩ := alongside
  have added : Alongside env (addPart a fin len payload) (addPart {a with banCheckAt := time,lim} fin len payload) :=
    ⟨time,lim,rfl,roomier⟩
  unfold dataFrame
  split_ifs
  · exact .violates alive _ _ _
  · have live : (addPart a fin len payload).killed = false := alive
    exact complete_leads clock monotone loosens live added
  · exact Or.inl ⟨alive,added,rfl⟩

theorem takeFrame_leads (alive : a.killed = false) (alongside : Alongside env a b) (fin : Bool)
    (op off len : Nat) : Leads env (takeFrame env p a fin op off len) (takeFrame looser q b fin op off len) := by
  obtain ⟨time,lim,rfl,roomier⟩ := alongside
  have live : (hold a (frameEnd off len)).killed = false := alive
  have held : Alongside env (hold a (frameEnd off len)) (hold {a with banCheckAt := time,lim} (frameEnd off len)) :=
    ⟨time,lim,rfl,roomier⟩
  by_cases many : maxPendingFrames < (hold a (frameEnd off len)).pending.length
  · simp only [takeFrame,if_pos many]
    exact .violates live _ _ _
  · have few : ¬ maxPendingFrames <
        (hold {a with banCheckAt := time,lim} (frameEnd off len)).pending.length := many
    simp only [takeFrame,if_neg many,if_neg few]
    by_cases control : 8 ≤ op
    · simp only [if_pos control]
      exact controlFrame_leads live held
    · simp only [if_neg control]
      exact dataFrame_leads clock monotone loosens live held fin len _

theorem pump_leads (alive : a.killed = false) (alongside : Alongside env a b) :
    Leads env (pump env p a) (pump looser q b) := by
  refine pump_rule (motive := fun a done => ∀ b, a.killed = false → Alongside env a b →
    Leads env done (pump looser q b)) ?_ ?_ ?_ ?_ a b alive alongside
  · intro a killed b alive _
    simp [killed] at alive
  · intro a need alive waits b _ alongside
    obtain ⟨time,lim,rfl,roomier⟩ := alongside
    have same : frameHeader q a.inMsg a.msgLen a.acc = .wait need := by
      rw [frameHeader_loosens loosens (by simp [waits]),waits]
    have live : St.killed {a with banCheckAt := time,lim} = false := alive
    rw [pump_wait live same]
    exact Or.inl ⟨alive,⟨time,lim,rfl,roomier⟩,rfl⟩
  · intro a v alive _ b _ _
    exact .violates alive _ _ _
  · intro a fin op off len alive found ih b _ alongside
    have taken := takeFrame_leads clock monotone loosens alive alongside fin op off len
    obtain ⟨time,lim,rfl,roomier⟩ := alongside
    have same : frameHeader q a.inMsg a.msgLen a.acc = .frame fin op off len := by
      rw [frameHeader_loosens loosens (by simp [found]),found]
    have live : St.killed {a with banCheckAt := time,lim} = false := alive
    rw [pump_frame live same]
    exact taken.then (ih _) (fun dead => pump_killed dead)

theorem classify_leads (alive : a.killed = false) (alongside : Alongside env a b) (stop : Nat) :
    Leads env (classify env p a stop) (classify looser q b stop) := by
  obtain ⟨time,lim,rfl,roomier⟩ := alongside
  simp only [classify]
  split_ifs
  · have live : (upgraded a stop).killed = false := alive
    have opened : Alongside env (upgraded a stop) (upgraded {a with banCheckAt := time,lim} stop) :=
      ⟨time,lim,rfl,roomier⟩
    exact Leads.after (pump_leads clock monotone loosens live opened) [_]
  · exact Or.inl ⟨alive,⟨time,lim,rfl,roomier⟩,rfl⟩
  · exact Or.inl ⟨alive,⟨time,lim,rfl,roomier⟩,rfl⟩

theorem handshake_leads (alive : a.killed = false) (alongside : Alongside env a b) (data : Bytes) :
    LeadsRead env (handshake env p a data) (handshake looser q b data) := by
  have started : Alongside env (scanned a data) (scanned b data) := by
    obtain ⟨time,lim,rfl,roomier⟩ := alongside
    exact ⟨time,lim,rfl,roomier⟩
  have same : b.hsReads = a.hsReads ∧ b.hs = a.hs ∧ b.hsScanned = a.hsScanned := by
    obtain ⟨time,lim,rfl,roomier⟩ := alongside
    exact ⟨rfl,rfl,rfl⟩
  obtain ⟨reads,head,seen⟩ := same
  unfold handshake
  rw [reads,head,seen]
  by_cases many : p.maxHsReads < (a.hsReads + 1 : Nat)
  · have counted : St.killed {a with hsReads := a.hsReads + 1} = false := alive
    rw [if_pos many]
    exact .cut counted _ _ _
  · have few : ¬ q.maxHsReads < (a.hsReads + 1 : Nat) := fun more =>
      many (Number.lt_of_le_of_lt loosens.maxHsReads more)
    rw [if_neg many,if_neg few]
    by_cases large : maxHandshake < (a.hs ++ data).length
    · have added : St.killed {a with hs := a.hs ++ data,hsReads := a.hsReads + 1} = false := alive
      rw [if_pos large]
      exact .cut added _ _ _
    · rw [if_neg large,if_neg large]
      cases headerBlockEnd (a.hs ++ data) (a.hsScanned - 2) with
      | none => exact ⟨Or.inl ⟨alive,started,rfl⟩,fun _ => rfl⟩
      | some stop =>
        by_cases bare : hasBareLf (a.hs ++ data) stop = true
        · have live : (scanned a data).killed = false := alive
          simp only [if_pos bare]
          exact .cut live _ _ _
        · have live : (scanned a data).killed = false := alive
          simp only [if_neg bare]
          exact ⟨classify_leads clock monotone loosens live started stop,fun _ => rfl⟩

theorem receive_leads (alive : a.killed = false) (alongside : Alongside env a b) (data : Bytes) :
    LeadsRead env (receive env p a data) (receive looser q b data) := by
  obtain ⟨time,lim,rfl,roomier⟩ := alongside
  by_cases many : p.maxMsgReads < (a.msgReads + 1 : Nat)
  · have counted : (msgRead a).killed = false := alive
    simp only [receive,if_pos many]
    exact .cut counted _ _ _
  · have few : ¬ q.maxMsgReads < (a.msgReads + 1 : Nat) := fun more =>
      many (Number.lt_of_le_of_lt loosens.maxMsgReads more)
    simp only [receive,if_neg many,if_neg few]
    split_ifs
    · exact ⟨Or.inl ⟨alive,⟨time,lim,rfl,roomier⟩,rfl⟩,fun _ => rfl⟩
    · have live : (joined (buffered a data)).killed = false := alive
      have together : Alongside env (joined (buffered a data))
          (joined (buffered {a with banCheckAt := time,lim} data)) := ⟨time,lim,rfl,roomier⟩
      exact ⟨pump_leads clock monotone loosens live together,fun _ => rfl⟩

theorem read_leads (alive : a.killed = false) (alongside : Alongside env a b) (data : Bytes) :
    LeadsRead env (read env p a data) (read looser q b data) := by
  have mode : b.mode = a.mode := by
    obtain ⟨time,lim,rfl,_⟩ := alongside
    rfl
  unfold read
  rw [mode]
  split_ifs
  · exact ⟨Or.inl ⟨alive,alongside,rfl⟩,fun _ => rfl⟩
  · exact handshake_leads clock monotone loosens alive alongside data
  · exact receive_leads clock monotone loosens alive alongside data

theorem upstream_leads (strict : p.banFile = []) (loose : q.banFile = []) (alive : a.killed = false)
    (alongside : Alongside env a b) (data : Bytes) (flags : Flags) :
    Leads env (upstream env p a data flags) (upstream looser q b data flags) := by
  have same : b.mode = a.mode ∧ b.killed = a.killed := by
    obtain ⟨time,lim,rfl,_⟩ := alongside
    exact ⟨rfl,rfl⟩
  rw [upstream_unbanned strict alive,upstream_unbanned loose (same.2.trans alive),same.1]
  split_ifs
  · exact Or.inl ⟨alive,alongside,rfl⟩
  · exact (read_leads clock monotone loosens alive alongside data).finish flags

end Steps

/-! ## Whole sessions -/

def Env.under (env : Env) (policy : Option Str) : Env := {env with policy}

/-- The looser session is alongside the stricter one and has forwarded the same, or the
stricter one has been cut and had forwarded no more. -/
def Ahead (env : Env) (one other : St × Trace) : Prop :=
  (one.1.killed = false ∧ Alongside env one.1 other.1 ∧ forwardedUp other.2 = forwardedUp one.2) ∨
    (one.1.killed = true ∧ forwardedUp one.2 <+: forwardedUp other.2)

section Sessions
variable {env : Env} {other : Option Str}

theorem respond_ahead {one another : St × Trace} {q : Cfg} (monotone : Monotone env.now)
    (loosens : Loosens (readCfg env) q) (strict : (readCfg env).banFile = []) (loose : q.banFile = [])
    (settled : Settled one.1) (ahead : Ahead env one another) (c : Callback) :
    Ahead env ((respond env (readCfg env) one.1 c).1,
        one.2 ++ (respond env (readCfg env) one.1 c).2.map (Prod.mk c.direction))
      ((respond (env.under other) q another.1 c).1,
        another.2 ++ (respond (env.under other) q another.1 c).2.map (Prod.mk c.direction)) := by
  rcases ahead with ⟨alive,alongside,same⟩ | ⟨killed,fewer⟩
  · cases c with
    | upstream data flags =>
      have clock : (env.under other).now = env.now := rfl
      have leads := upstream_leads clock monotone loosens strict loose alive alongside data flags
      simp only [Ahead,respond,Callback.direction,forwardedUp_append,forwardedUp_calls,same]
      rcases leads with ⟨alive,alongside,calls⟩ | ⟨killed,fewer⟩
      · exact Or.inl ⟨alive,alongside,by rw [calls]⟩
      · exact Or.inr ⟨killed,(List.prefix_append_right_inj _).mpr fewer⟩
    | downstream data flags =>
      have forwarded : forwardedUp another.2 = forwardedUp one.2 := same
      simp only [Ahead,Callback.direction,forwardedUp_append,forwardedUp_downstream,List.append_nil]
      cases live : (respond env (readCfg env) one.1 (.downstream data flags)).1.killed with
      | true =>
        refine Or.inr ⟨rfl,?_⟩
        exact forwarded ▸ List.prefix_rfl
      | false =>
        refine Or.inl ⟨rfl,?_,forwarded⟩
        obtain ⟨time,lim,together,roomier⟩ := alongside
        rw [together]
        simp only [respond,downstream] at live ⊢
        split_ifs at live ⊢
        · rw [violate_alive env _ (latched_alive alive)] at live
          cases live
        · exact ⟨time,lim,rfl,roomier⟩
        · exact ⟨time,lim,rfl,roomier⟩
  · have stops := respond_killed env (readCfg env) killed settled c
    refine Or.inr ⟨?_,?_⟩
    · rw [stops]
      exact killed
    · have nothing : forwardedUp ((respond env (readCfg env) one.1 c).2.map (Prod.mk c.direction)) = [] := by
        rw [stops]
        cases c <;> rfl
      rw [forwardedUp_append,forwardedUp_append,nothing,List.append_nil]
      exact fewer.trans (List.prefix_append _ _)

/-- A bucket that some tokens fill, which a burst of minus infinity lets none do. -/
def Bucket.Fillable (b : Bucket) : Prop := b.burst ≠ .negInf

structure Cfg.Fillable (cfg : Cfg) : Prop where
  bMsg : cfg.bMsg.Fillable
  bEvent : cfg.bEvent.Fillable
  bReq : cfg.bReq.Fillable

theorem filter_ahead (monotone : Monotone env.now) (loosens : Loosens (readCfg env) (readCfg (env.under other)))
    (fillable : (readCfg env).Fillable) : Ahead env (filter env (readCfg env),[])
      (filter (env.under other) (readCfg (env.under other)),[]) := by
  have full (a b : Bucket) (full : a.tokens = a.burst) (full' : b.tokens = b.burst) (time : b.t = a.t)
      (loosens : a.Loosens b) (fillable : a.Fillable) : Fuller a b := by
    refine ⟨loosens,fun _ => ⟨fillable,?_⟩,time,?_⟩
    · rw [full]
      exact fillable
    · rw [full,full']
      exact Or.inr loosens.burst
  refine Or.inl ⟨rfl,⟨_,_,rfl,?_⟩,rfl⟩
  refine ⟨rfl,rfl,rfl,fun meter => ?_,fun meter => ?_⟩
  · cases meter with
    | msg => exact full _ _ rfl rfl rfl loosens.bMsg fillable.bMsg
    | event => exact full _ _ rfl rfl rfl loosens.bEvent fillable.bEvent
    | req => exact full _ _ rfl rfl rfl loosens.bReq fillable.bReq
  · cases meter with
    | msg => exact monotone (Nat.zero_le 4)
    | event => exact monotone (by decide : 1 ≤ 4)
    | req => exact monotone (by decide : 2 ≤ 4)

theorem session_ahead (monotone : Monotone env.now) (strict : (readCfg env).banFile = [])
    (loose : (readCfg (env.under other)).banFile = [])
    (loosens : Loosens (readCfg env) (readCfg (env.under other))) (fillable : (readCfg env).Fillable)
    (callbacks : List Callback) : Ahead env (session env callbacks) (session (env.under other) callbacks) := by
  induction callbacks using List.reverseRecOn with
  | nil => exact filter_ahead monotone loosens fillable
  | append_singleton before c ih =>
    rw [session_concat,session_concat]
    exact respond_ahead monotone loosens strict loose (session_settled env before) ih c

/-- Under a policy at least as permissive in every knob a session forwards at least what it
forwards under the stricter one, unless a bucket of the stricter has a burst of minus
infinity. -/
theorem loosening_forwards (monotone : Monotone env.now) (strict : (readCfg env).banFile = [])
    (loose : (readCfg (env.under other)).banFile = [])
    (loosens : Loosens (readCfg env) (readCfg (env.under other))) (fillable : (readCfg env).Fillable)
    (callbacks : List Callback) :
    forwardedUp (session env callbacks).2 <+: forwardedUp (session (env.under other) callbacks).2 := by
  rcases session_ahead monotone strict loose loosens fillable callbacks with ⟨_,_,same⟩ | ⟨_,fewer⟩
  · exact same ▸ List.prefix_rfl
  · exact fewer

end Sessions

def closeMessage : Bytes := message "[\"CLOSE\",\"s\"]"

theorem loosening_defaults :
    forwardedUp (session (listener "ws_max_msg=1024") [sends upgradeRequest,sends closeMessage]).2 <+:
      forwardedUp (session ((listener "ws_max_msg=1024").under none)
        [sends upgradeRequest,sends closeMessage]).2 := by
  have buckets : (readCfg (listener "ws_max_msg=1024")).bMsg.Loosens
        (readCfg ((listener "ws_max_msg=1024").under none)).bMsg ∧
      (readCfg (listener "ws_max_msg=1024")).bEvent.Loosens
        (readCfg ((listener "ws_max_msg=1024").under none)).bEvent ∧
      (readCfg (listener "ws_max_msg=1024")).bReq.Loosens
        (readCfg ((listener "ws_max_msg=1024").under none)).bReq := by
    refine ⟨⟨?_,?_,?_⟩,⟨?_,?_,?_⟩,⟨?_,?_,?_⟩⟩ <;> decide +kernel
  refine loosening_forwards (fun _ _ _ => le_rfl) (by decide +kernel) (by decide +kernel) ?_ ?_ _
  · refine ⟨?_,?_,?_,?_,?_,?_,?_,?_,?_,buckets.1,buckets.2.1,buckets.2.2,?_,?_⟩ <;> decide +kernel
  · refine ⟨?_,?_,?_⟩ <;> (unfold Bucket.Fillable; decide +kernel)

def ticking (policy : String) : Env := {listener policy with now := fun n => n}

/-- A bucket with a burst of minus infinity and an infinite rate holds a NaN, which
pays for anything; the same bucket with a burst of zero pays for nothing. -/
theorem burst_tightens :
    ¬ ∀ (env : Env) (other : Option Str), Monotone env.now → (readCfg env).banFile = [] →
      (readCfg (env.under other)).banFile = [] → Loosens (readCfg env) (readCfg (env.under other)) →
      ∀ callbacks, forwardedUp (session env callbacks).2 <+: forwardedUp (session (env.under other) callbacks).2 := by
  intro claim
  have monotone : Monotone (ticking "ws_msg_rate=Infinity;ws_msg_burst=-Infinity").now :=
    fun _ _ earlier => Int.ofNat_le.mpr earlier
  have loosens : Loosens (readCfg (ticking "ws_msg_rate=Infinity;ws_msg_burst=-Infinity"))
      (readCfg ((ticking "ws_msg_rate=Infinity;ws_msg_burst=-Infinity").under
        (some (str "ws_msg_rate=Infinity;ws_msg_burst=0")))) := by
    refine ⟨?_,?_,?_,?_,?_,?_,?_,?_,?_,⟨?_,?_,?_⟩,⟨?_,?_,?_⟩,⟨?_,?_,?_⟩,?_,?_⟩ <;> decide +kernel
  have more := claim _ (some (str "ws_msg_rate=Infinity;ws_msg_burst=0")) monotone (by decide +kernel)
    (by decide +kernel) loosens [sends upgradeRequest,sends closeMessage]
  revert more
  decide +kernel

end FipsShield.Engine
