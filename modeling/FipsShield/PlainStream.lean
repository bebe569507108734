import FipsShield.Backstop
import FipsShield.Stream

/-! What a session classified as plain sends upstream: the head, decoded and encoded
again, and then the client's bytes as they come. -/
namespace FipsShield.Engine
open Text FipsShield.Core

def Unheeded (env : Env) (callbacks : List Callback) : Prop :=
  ∀ before c later, callbacks = before ++ c::later → (session env before).1.killed = true → c.sent = []

theorem unheeded_concat {env : Env} {before : List Callback} {c : Callback} :
    Unheeded env (before ++ [c]) ↔
      Unheeded env before ∧ ((session env before).1.killed = true → c.sent = []) :=
  Transducer.places_concat

theorem unheeded_alive {env : Env} {callbacks : List Callback}
    (alive : (session env callbacks).1.killed = false) : Unheeded env callbacks := by
  intro before c later same killed
  have still := session_stays killed (c::later)
  rw [← same,alive] at still
  contradiction

theorem toUpstream_downstream (calls : List Call) :
    toUpstream (calls.map (Prod.mk .downstream)) = [] := by
  rw [toUpstream,List.flatMap_map]
  apply List.flatMap_eq_nil_iff.mpr
  intro call _
  cases call <;> rfl

/-- The client's bytes in a plain session: the head, what followed it while the session
lived, and what came too late. -/
structure Passing (env : Env) (callbacks : List Callback) (head body late : Bytes) : Prop where
  cut : CutHead (clientStream callbacks) head
  stream : clientStream callbacks = head ++ body ++ late
  sent : toUpstream (session env callbacks).2 = encode (decode head) ++ body
  unheeded : late = [] ↔ Unheeded env callbacks

section Steps
variable {env : Env} {before : List Callback} {head body late : Bytes}

theorem Passing.alive (passing : Passing env before head body late)
    (plain : (session env before).1.mode = .plain) (alive : (session env before).1.killed = false)
    (c : Callback) : Passing env (before ++ [c]) head (body ++ c.sent) [] := by
  have prompt := unheeded_alive alive
  have nothing : late = [] := passing.unheeded.mpr prompt
  refine ⟨?_,?_,?_,?_⟩
  · rw [clientStream_concat]
    exact passing.cut.append c.sent
  · rw [clientStream_concat,passing.stream,nothing]
    simp
  · rw [session_concat,toUpstream_append,passing.sent,List.append_assoc]
    apply congrArg
    apply congrArg
    cases c with
    | upstream data flags =>
      have step := respond_plain env (readCfg env) alive plain (Or.inr (rfl : (Callback.upstream data flags).answer = []))
      rw [callback,step]
      exact List.append_nil data
    | downstream data flags => exact toUpstream_downstream _
  · apply iff_of_true rfl
    apply unheeded_concat.mpr
    exact ⟨prompt,fun killed => by simp [alive] at killed⟩

theorem Passing.cutOff (passing : Passing env before head body late)
    (killed : (session env before).1.killed = true) (c : Callback) :
    Passing env (before ++ [c]) head body (late ++ c.sent) := by
  refine ⟨?_,?_,?_,?_⟩
  · rw [clientStream_concat]
    exact passing.cut.append c.sent
  · rw [clientStream_concat,passing.stream,List.append_assoc]
  · rw [session_concat,toUpstream_append,passing.sent,callback,
      respond_killed env (readCfg env) killed (session_settled env before)]
    cases c <;> exact List.append_nil _
  · rw [unheeded_concat,List.append_eq_nil_iff,passing.unheeded]
    exact and_congr_right fun _ => ⟨fun silent _ => silent,fun silent => silent killed⟩

end Steps

theorem classify_passes (env : Env) (cfg : Cfg) {st : St} {stop : Nat}
    (other : upgradeTest (Text.toString (st.hs.take stop)) = false) (flags : Flags) :
    toUpstream ((finish flags ((classify env cfg st stop).1,(classify env cfg st stop).2,true)).2.map
        (Prod.mk .upstream)) = encode (decode (st.hs.take stop)) ++ st.hs.drop stop := by
  have silent := (propagate_silent flags (passing st)).1
  rw [classify_plain env cfg other,finish,if_pos rfl,List.map_append,toUpstream_append,silent,
    List.append_nil,fromString_toString]
  split_ifs with empty
  · simp [toUpstream,upstreamBytes]
  · have nothing : st.hs.drop stop = [] := by simpa using empty
    simp [toUpstream,upstreamBytes,nothing]

theorem session_passing (env : Env) (callbacks : List Callback)
    (plain : (session env callbacks).1.mode = .plain) : ∃ head body late, Passing env callbacks head body late := by
  induction callbacks using List.reverseRecOn with
  | nil => simp [session,filter] at plain
  | append_singleton before c ih =>
    have step : (session env (before ++ [c])).1 = (respond env (readCfg env) (session env before).1 c).1 := by
      rw [session_concat]
      rfl
    rw [step] at plain
    cases session_phase env before with
    | sniffing sniffs nothing =>
      rcases respond_sniffing env (readCfg env) sniffs c with
        ⟨_,_,seen,rule,detail,live,mode,cuts⟩ | ⟨_,still,_⟩ | ⟨_,data,flags,time,ticks,stop,rfl,found,clean,done⟩
      · rw [cuts,violate_alive env _ live] at plain
        exact absurd (mode.symm.trans plain) (by decide)
      · exact absurd (still.mode.symm.trans plain) (by decide)
      · have started := sniffs.clocked time ticks
        have hs : (scanned ((session env before).1.clocked time ticks) data).hs = clientStream before ++ data :=
          congrArg (· ++ data) started.whole
        have live : (scanned ((session env before).1.clocked time ticks) data).killed = false := started.alive
        obtain ⟨mode,_⟩ := classify_accepts env (readCfg env) live stop
        have other : upgradeTest (Text.toString ((clientStream before ++ data).take stop)) = false := by
          by_contra asks
          rw [done] at plain
          rw [hs,if_pos (Bool.eq_true_of_not_eq_false asks)] at mode
          exact absurd (mode.symm.trans plain) (by decide)
        have whole := clientStream_concat before (.upstream data flags)
        have prompt := unheeded_alive sniffs.alive
        refine ⟨(clientStream before ++ data).take stop,(clientStream before ++ data).drop stop,[],?_,?_,?_,?_⟩
        · rw [whole]
          exact ⟨stop,found,clean,rfl⟩
        · rw [whole,List.append_nil]
          exact (List.take_append_drop stop _).symm
        · rw [session_concat,toUpstream_append,nothing,callback,done]
          rw [← hs] at other ⊢
          exact classify_passes env (readCfg env) other flags
        · apply iff_of_true rfl
          apply unheeded_concat.mpr
          exact ⟨prompt,fun killed => by simp [sniffs.alive] at killed⟩
    | refused killed mode _ _ =>
      rw [respond_killed env (readCfg env) killed (session_settled env before)] at plain
      exact absurd (mode.symm.trans plain) (by decide)
    | accepted head accepts =>
      have kept := respond_mode env (readCfg env) accepts.mode_ne c
      have before_plain := kept.symm.trans plain
      obtain ⟨head,body,late,passing⟩ := ih before_plain
      cases killed : (session env before).1.killed with
      | false => exact ⟨head,_,_,passing.alive before_plain killed c⟩
      | true => exact ⟨head,_,_,passing.cutOff killed c⟩

theorem session_held (env : Env) (before later : List Callback)
    (plain : (session env (before ++ later)).1.mode = .plain)
    (sniffing : (session env before).1.mode = .handshake) : toUpstream (session env before).2 = [] := by
  cases session_phase env before with
  | sniffing _ nothing => exact nothing
  | refused killed mode _ _ =>
    rw [session_append,run_killed env (readCfg env) killed (session_settled env before)] at plain
    exact absurd (mode.symm.trans plain) (by decide)
  | accepted head accepts => exact absurd sniffing accepts.mode_ne

/-- What a plain session sends upstream, all of it once it is classified, is what the client
sent, byte for byte, if and only if the head is well-formed UTF-8 and no bytes arrive from
the client once the session is cut. -/
theorem plain_unaltered (env : Env) (callbacks : List Callback)
    (plain : (session env callbacks).1.mode = .plain) :
    (∀ before later, callbacks = before ++ later → (session env before).1.mode = .handshake →
        toUpstream (session env before).2 = []) ∧
      ∃ head, CutHead (clientStream callbacks) head ∧
        (toUpstream (session env callbacks).2 = clientStream callbacks ↔
          WellFormed head ∧ Unheeded env callbacks) := by
  refine ⟨?_,?_⟩
  · intro before later same sniffing
    exact session_held env before later (same ▸ plain) sniffing
  · obtain ⟨head,body,late,passing⟩ := session_passing env callbacks plain
    refine ⟨head,passing.cut,?_⟩
    rw [passing.sent,passing.stream,← reencode_iff,← passing.unheeded]
    constructor
    · intro same
      obtain ⟨line,rfl⟩ := passing.cut.ends
      rw [reencode_append_ascii 0x0A (by decide)] at same ⊢
      simp only [decode_nil,encode,List.flatMap_nil] at same ⊢
      have first : encode (decode line) = line := by
        apply reencode_starts 0x0A (by decide)
        simpa [encode,List.append_assoc] using same
      refine ⟨congrArg (· ++ [0x0A]) first,?_⟩
      have whole := congrArg List.length same
      simp only [encode] at first
      simpa [first] using whole
    · intro sound
      rw [sound.1,sound.2,List.append_nil]

def plainReads : List Callback :=
  [sends (plainRequest.take 20),sends (plainRequest.drop 20 ++ [0xE9]),sends [0xFF,0x0A]]

/-- A head in two reads, and bytes of no text after it. -/
theorem plain_request : toUpstream (session (listener "") plainReads).2 = clientStream plainReads := by
  obtain ⟨_,head,⟨stop,ends,_,rfl⟩,unaltered⟩ := plain_unaltered (listener "") plainReads (by decide +kernel)
  have stops : headerBlockEnd (clientStream plainReads) 0 = some 31 := by decide +kernel
  obtain rfl : 31 = stop := Option.some.inj (stops.symm.trans ends)
  have first : Unheeded (listener "") ([] ++ [sends (plainRequest.take 20)]) :=
    unheeded_concat.mpr ⟨by simp [Unheeded],by decide +kernel⟩
  have second : Unheeded (listener "") ([sends (plainRequest.take 20)] ++ [sends (plainRequest.drop 20 ++ [0xE9])]) :=
    unheeded_concat.mpr ⟨first,by decide +kernel⟩
  exact unaltered.mpr ⟨(reencode_iff _).mp (by decide +kernel),unheeded_concat.mpr ⟨second,by decide +kernel⟩⟩

def latinRequest : Bytes := bytes "GET /caf" ++ [0xE9] ++ bytes " HTTP/1.1\r\n\r\n"

/-- The upstream is sent a replacement character for it. -/
theorem plain_replaced :
    (session (listener "") [sends latinRequest]).1.mode = .plain ∧
      toUpstream (session (listener "") [sends latinRequest]).2 ≠ clientStream [sends latinRequest] := by
  decide +kernel

end FipsShield.Engine
