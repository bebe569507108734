import FipsShield.Handshake

/-! What an accepted head is to the HTTP stage: whether it is the header block of
the first request there, and whether a WebSocket offer in it is noticed. -/
namespace FipsShield.Engine
open Text Head

theorem session_accepted {env : Env} {callbacks : List Callback}
    (accepted : (session env callbacks).1.mode ≠ .handshake) :
    ∃ head, Accepted (session env callbacks).1 (clientStream callbacks)
      (toUpstream (session env callbacks).2) head := by
  cases session_phase env callbacks with
  | sniffing sniffs _ => exact absurd sniffs.mode accepted
  | refused _ mode _ _ => exact absurd mode accepted
  | accepted head accepts => exact ⟨head,accepts⟩

theorem CutHead.started {stream head : Bytes} (cut : CutHead stream head) : head <+: stream := by
  obtain ⟨stop,_,_,rfl⟩ := cut
  exact List.take_prefix stop stream

/-- The head is the header block of the first request in the client's bytes and, as it is
forwarded, in the bytes the HTTP stage is sent if and only if the stream does not start
with two empty lines; it is forwarded unaltered if and only if it is well-formed too. -/
theorem headerBlock_iff (env : Env) (callbacks : List Callback)
    (accepted : (session env callbacks).1.mode ≠ .handshake) :
    ∃ head, Accepted (session env callbacks).1 (clientStream callbacks)
        (toUpstream (session env callbacks).2) head ∧
      ((HeaderBlock head (clientStream callbacks) ∧
          HeaderBlock (fromString (Text.toString head)) (toUpstream (session env callbacks).2)) ↔
        ¬ crlf ++ crlf <+: clientStream callbacks) ∧
      ((HeaderBlock head (clientStream callbacks) ∧ fromString (Text.toString head) = head) ↔
        ¬ crlf ++ crlf <+: clientStream callbacks ∧ WellFormed head) := by
  obtain ⟨head,accepts⟩ := session_accepted accepted
  have request := requestHead_iff accepts.cut
  refine ⟨head,accepts,?_,?_⟩
  · constructor
    · intro blocks
      exact request.mp blocks.1.2
    · intro started
      have inside := request.mpr started
      refine ⟨⟨accepts.cut.started,inside⟩,accepts.forwarded,?_⟩
      rw [fromString_toString]
      exact requestHead_reencode inside
  · rw [fromString_toString,reencode_iff]
    constructor
    · intro block
      exact ⟨request.mp block.1.2,block.2⟩
    · intro sound
      exact ⟨⟨accepts.cut.started,request.mpr sound.1⟩,sound.2⟩

theorem headerBlock_upgrade :
    ∃ head, Accepted (session (listener "") [sends upgradeRequest]).1 (clientStream [sends upgradeRequest])
        (toUpstream (session (listener "") [sends upgradeRequest]).2) head ∧
      HeaderBlock head (clientStream [sends upgradeRequest]) ∧
      HeaderBlock (fromString (Text.toString head)) (toUpstream (session (listener "") [sends upgradeRequest]).2) := by
  obtain ⟨head,accepts,blocks,_⟩ := headerBlock_iff (listener "") [sends upgradeRequest] (by decide +kernel)
  exact ⟨head,accepts,blocks.mpr (by decide +kernel)⟩

/-- After two empty lines the request that upgrades is forwarded uninspected. -/
theorem blank_head :
    (session (listener "") [sends (crlf ++ crlf ++ upgradeRequest)]).1.mode = .plain ∧
      toUpstream (session (listener "") [sends (crlf ++ crlf ++ upgradeRequest)]).2 =
        crlf ++ crlf ++ upgradeRequest ∧
      ¬ ∃ head, CutHead (clientStream [sends (crlf ++ crlf ++ upgradeRequest)]) head ∧
        HeaderBlock head (clientStream [sends (crlf ++ crlf ++ upgradeRequest)]) := by
  refine ⟨by decide +kernel,by decide +kernel,?_⟩
  rintro ⟨head,cut,_,request⟩
  have blank : ¬ ¬ crlf ++ crlf <+: clientStream [sends (crlf ++ crlf ++ upgradeRequest)] := by
    decide +kernel
  exact blank ((requestHead_iff cut).mp request)

/-- A WebSocket offer puts the session in WebSocket mode if and only if there is none or
some line after the first leads with it: it is the first protocol of its field. -/
theorem upgrade_iff (env : Env) (callbacks : List Callback)
    (accepted : (session env callbacks).1.mode ≠ .handshake) :
    ∃ head, Accepted (session env callbacks).1 (clientStream callbacks)
        (toUpstream (session env callbacks).2) head ∧
      ((offers "websocket" (Text.toString head) = true → (session env callbacks).1.mode = .ws) ↔
        offers "websocket" (Text.toString head) = false ∨
          ∃ line ∈ (lines (Text.toString head)).tail, leadsWith "websocket" line = true) := by
  obtain ⟨head,accepts⟩ := session_accepted accepted
  refine ⟨head,accepts,?_⟩
  have mode : (session env callbacks).1.mode = .ws ↔ upgradeTest (Text.toString head) = true := by
    rw [accepts.mode]
    split_ifs with test <;> simp [test]
  rw [mode,upgradeTest_iff]
  cases offers "websocket" (Text.toString head) <;> simp

theorem upgrade_first :
    ∃ head, Accepted (session (listener "") [sends upgradeRequest]).1 (clientStream [sends upgradeRequest])
        (toUpstream (session (listener "") [sends upgradeRequest]).2) head ∧
      (offers "websocket" (Text.toString head) = false ∨
        ∃ line ∈ (lines (Text.toString head)).tail, leadsWith "websocket" line = true) := by
  obtain ⟨head,accepts,offered⟩ := upgrade_iff (listener "") [sends upgradeRequest] (by decide +kernel)
  exact ⟨head,accepts,offered.mp fun _ => by decide +kernel⟩

def listedRequest : Bytes := bytes "GET / HTTP/1.1\r\nUpgrade: h2c, websocket\r\n\r\n"

/-- An offer that comes second in its list leaves the session plain. -/
theorem listed_offer :
    headerBlockEnd listedRequest 0 = some listedRequest.length ∧
      offers "websocket" (Text.toString listedRequest) = true ∧
      (session (listener "") [sends listedRequest]).1.mode = .plain := by
  decide +kernel

end FipsShield.Engine
