import FipsShield.Queries
import FipsShield.Library.Utf8

/-! The messages that reach the relay, and the text they were inspected as. -/
namespace FipsShield.Engine
open Text FipsShield.Core

/-- The relay has been sent this message whole, after the head. -/
structure Forwards (env : Env) (callbacks : List Callback) (m : Bytes) : Prop where
  upgraded : (session env callbacks).1.mode = .ws
  carried : ∃ head sent, CutHead (clientStream callbacks) head ∧
    forwardedUp (session env callbacks).2 = fromString (Text.toString head) ++ sent ∧
    m ∈ (assemble (Frame.split sent).1).messages

theorem CutHead.unique {stream head other : Bytes} (cut : CutHead stream head) (again : CutHead stream other) :
    head = other := by
  obtain ⟨stop,found,_,rfl⟩ := cut
  obtain ⟨stop',found',_,rfl⟩ := again
  rw [found] at found'
  rw [Option.some.inj found']

section Session
variable {env : Env} {callbacks : List Callback} {m : Bytes}

theorem forwards_iff : Forwards env callbacks m ↔
    (session env callbacks).1.mode = .ws ∧ m ∈ acceptedMessages (session env callbacks).2 := by
  constructor
  · rintro ⟨upgraded,head,sent,cut,forwarded,member⟩
    obtain ⟨head',body,sent',cut',_,forwarded',messages⟩ := session_forwarded env callbacks upgraded
    obtain rfl := cut.unique cut'
    rw [forwarded] at forwarded'
    obtain rfl := List.append_cancel_left forwarded'
    exact ⟨upgraded,messages ▸ member⟩
  · rintro ⟨upgraded,member⟩
    obtain ⟨head,body,sent,cut,_,forwarded,messages⟩ := session_forwarded env callbacks upgraded
    exact ⟨upgraded,head,sent,cut,forwarded,messages ▸ member⟩

theorem accepted_polices (env : Env) (cfg : Cfg) :
    Polices env cfg fun _ messages => ∀ m ∈ messages, ∃ lim, (police env cfg lim m).1 = none where
  tick _ _ _ _ holds := holds
  police lim messages buf holds := by
    split_ifs with passed
    · exact List.forall_mem_append.mpr ⟨holds,List.forall_mem_singleton.mpr ⟨lim,passed⟩⟩
    · rw [List.append_nil]
      exact holds

theorem Forwards.passed (forwards : Forwards env callbacks m) :
    ∃ lim, (police env (readCfg env) lim m).1 = none :=
  session_limits env (accepted_polices env (readCfg env)) (by simp) callbacks m (forwards_iff.mp forwards).2

/-- An accepted message is a text that parses to an array with an allowed type in front. -/
theorem police_speaks {cfg : Cfg} {lim : Limits} {buf : Bytes} (passed : (police env cfg lim buf).1 = none) :
    ∃ t args, said buf = some (t,args) ∧ t ∈ cfg.types ∧ ∃ later, (byType env cfg later t args).1 = none := by
  have parsed := paying_passes passed
  cases read : Json.parse (Text.toString buf) with
  | none => simp [read] at parsed
  | some v =>
    cases typed : asMessage v with
    | none => simp [read,typed] at parsed
    | some pair =>
      obtain ⟨t,args⟩ := pair
      simp only [read,typed] at parsed
      split_ifs at parsed with allowed
      exact ⟨t,args,by simp [said,read,typed],allowed,_,parsed⟩

/-- Every message forwarded was read as a text that is one JSON value; that text, encoded,
is what the relay receives if and only if the payload is UTF-8. -/
theorem forwarded_text_iff (forwards : Forwards env callbacks m) :
    (∃ v, Json.parse (Text.toString m) = some v) ∧ (fromString (Text.toString m) = m ↔ Utf8 m) := by
  obtain ⟨lim,passed⟩ := forwards.passed
  obtain ⟨t,args,spoken,_⟩ := police_speaks passed
  obtain ⟨v,read,_⟩ := Option.bind_eq_some_iff.mp spoken
  exact ⟨⟨v,read⟩,reencode_utf8 m⟩

theorem forwarded_text_close :
    (∃ v, Json.parse (Text.toString (bytes "[\"CLOSE\",\"a\"]")) = some v) ∧
      Utf8 (bytes "[\"CLOSE\",\"a\"]") := by
  obtain ⟨parsed,decoded⟩ := @forwarded_text_iff (listener "") [sends upgradeRequest,sends (message "[\"CLOSE\",\"a\"]")]
    (bytes "[\"CLOSE\",\"a\"]") (forwards_iff.mpr (by decide +kernel))
  exact ⟨parsed,decoded.mp (by decide +kernel)⟩

def strayByte : Bytes := bytes "[\"AUTH\",\"" ++ [0xFF] ++ bytes "\"]"

/-- A byte that UTF-8 has no use for is inspected as U+FFFD and forwarded as it came. -/
theorem stray_forwarded : Forwards (listener "") [sends upgradeRequest,sends (framed opText strayByte true)] strayByte ∧
    fromString (Text.toString strayByte) ≠ strayByte :=
  ⟨forwards_iff.mpr (by decide +kernel),by decide +kernel⟩

end Session

end FipsShield.Engine
