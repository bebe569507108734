import FipsShield.Identifiers
import Mathlib.Data.Finset.Card

/-! Open subscriptions: what the relay has open after the messages that reach it,
and the one set in which the engine counts them. -/
namespace FipsShield.Engine
open Text FipsShield.Core

/-- The subscriptions and the negentropy sessions the relay has open. -/
structure Relay where
  requests : Finset Str
  sessions : Finset Str
  deriving DecidableEq

namespace Relay

/-- Each kind is opened and closed by its own two messages. -/
def take (relay : Relay) (t sid : Str) : Relay :=
  if t = str "REQ" then {relay with requests := insert sid relay.requests}
  else if t = str "CLOSE" then {relay with requests := relay.requests.erase sid}
  else if t = str "NEG-OPEN" then {relay with sessions := insert sid relay.sessions}
  else if t = str "NEG-CLOSE" then {relay with sessions := relay.sessions.erase sid}
  else relay

def count (relay : Relay) : Nat := relay.requests.card + relay.sessions.card

section Take
variable (relay : Relay) (sid : Str)

theorem take_req : relay.take (str "REQ") sid = {relay with requests := insert sid relay.requests} :=
  if_pos rfl

theorem take_close :
    relay.take (str "CLOSE") sid = {relay with requests := relay.requests.erase sid} := by
  rw [take,if_neg (by decide +kernel),if_pos rfl]

theorem take_negOpen :
    relay.take (str "NEG-OPEN") sid = {relay with sessions := insert sid relay.sessions} := by
  rw [take,if_neg (by decide +kernel),if_neg (by decide +kernel),if_pos rfl]

theorem take_negClose :
    relay.take (str "NEG-CLOSE") sid = {relay with sessions := relay.sessions.erase sid} := by
  rw [take,if_neg (by decide +kernel),if_neg (by decide +kernel),if_neg (by decide +kernel),if_pos rfl]

end Take

end Relay

def Relay.update (relay : Relay) (t : Str) (args : List Json) : Relay :=
  match idOf args with
  | some sid => relay.take t sid
  | none => relay

def Relay.receive (relay : Relay) (buf : Bytes) : Relay :=
  match said buf with
  | some (t,args) => relay.update t args
  | none => relay

def relayAfter (messages : List Bytes) : Relay := messages.foldl Relay.receive ⟨∅,∅⟩

/-- The id is open as the kind that messages of this type are not about. -/
def Relay.Clashes (relay : Relay) (t sid : Str) : Prop :=
  (t = str "REQ" ∨ t = str "CLOSE") ∧ sid ∈ relay.sessions ∨
    (t = str "NEG-OPEN" ∨ t = str "NEG-CLOSE") ∧ sid ∈ relay.requests

def Relay.Crosses (relay : Relay) (buf : Bytes) : Prop :=
  ∃ message ∈ said buf, ∃ sid ∈ idOf message.2, relay.Clashes message.1 sid

instance (relay : Relay) (t sid : Str) : Decidable (relay.Clashes t sid) :=
  inferInstanceAs (Decidable (_ ∨ _))

instance (relay : Relay) (buf : Bytes) : Decidable (relay.Crosses buf) :=
  inferInstanceAs (Decidable (∃ message ∈ said buf, ∃ sid ∈ idOf message.2, relay.Clashes message.1 sid))

/-- No message uses an id that is open as the other kind when it comes. -/
def Uncrossed (messages : List Bytes) : Prop :=
  ∀ before buf later, messages = before ++ buf::later → ¬ (relayAfter before).Crosses buf

theorem relayAfter_concat (messages : List Bytes) (buf : Bytes) :
    relayAfter (messages ++ [buf]) = (relayAfter messages).receive buf := by simp [relayAfter]

theorem Uncrossed.nil : Uncrossed [] := by
  intro before buf later same
  simp at same

theorem uncrossed_concat {messages : List Bytes} {buf : Bytes} :
    Uncrossed (messages ++ [buf]) ↔ Uncrossed messages ∧ ¬ (relayAfter messages).Crosses buf :=
  Transducer.places_concat

/-- The engine's set is that of both kinds together, with no id in both, and its
counter is the size of the set. -/
structure Counted (cfg : Cfg) (lim : Limits) (relay : Relay) : Prop where
  nodup : lim.subs.Nodup
  size : lim.subCount = lim.subs.length
  members : ∀ sid, sid ∈ lim.subs ↔ sid ∈ relay.requests ∨ sid ∈ relay.sessions
  disjoint : Disjoint relay.requests relay.sessions
  bounded : (lim.subCount : Number) ≤ cfg.maxSubs.ceil

theorem Counted.count {cfg : Cfg} {lim : Limits} {relay : Relay} (counted : Counted cfg lim relay) :
    relay.count = lim.subCount := by
  have together : lim.subs.toFinset = relay.requests ∪ relay.sessions := by
    ext sid
    rw [List.mem_toFinset,Finset.mem_union]
    exact counted.members sid
  rw [Relay.count,← Finset.card_union_of_disjoint counted.disjoint,← together,
    List.toFinset_card_of_nodup counted.nodup,counted.size]

/-- What inspecting a message leaves counted: the same view if it is refused, and the
next one if it is accepted and keeps apart from the other kind. -/
structure Accounted (cfg : Cfg) (relay next : Relay) (apart : Prop) (done : Option Violation × Limits) :
    Prop where
  refused : done.1 ≠ none → Counted cfg done.2 relay
  accepted : apart → done.1 = none → Counted cfg done.2 next

section Steps
variable {cfg : Cfg} {lim : Limits} {relay : Relay}

theorem Counted.sized (counted : Counted cfg lim relay) : Sized cfg lim :=
  ⟨counted.nodup,counted.size,counted.bounded⟩

theorem take_opens {t sid : Str} (opens : t = str "REQ" ∨ t = str "NEG-OPEN")
    (apart : ¬ relay.Clashes t sid) (disjoint : Disjoint relay.requests relay.sessions) :
    (∀ other, other ∈ (relay.take t sid).requests ∨ other ∈ (relay.take t sid).sessions ↔
      other = sid ∨ other ∈ relay.requests ∨ other ∈ relay.sessions) ∧
      Disjoint (relay.take t sid).requests (relay.take t sid).sessions := by
  rcases opens with rfl | rfl
  · have fresh : sid ∉ relay.sessions := fun crossed => apart (Or.inl ⟨Or.inl rfl,crossed⟩)
    rw [Relay.take_req]
    refine ⟨fun other => ?_,Finset.disjoint_insert_left.mpr ⟨fresh,disjoint⟩⟩
    rw [Finset.mem_insert,or_assoc]
  · have fresh : sid ∉ relay.requests := fun crossed => apart (Or.inr ⟨Or.inl rfl,crossed⟩)
    rw [Relay.take_negOpen]
    refine ⟨fun other => ?_,Finset.disjoint_insert_right.mpr ⟨fresh,disjoint⟩⟩
    rw [Finset.mem_insert,or_left_comm]

theorem take_closes {t sid : Str} (closes : t = str "CLOSE" ∨ t = str "NEG-CLOSE")
    (apart : ¬ relay.Clashes t sid) (disjoint : Disjoint relay.requests relay.sessions) :
    (∀ other, other ∈ (relay.take t sid).requests ∨ other ∈ (relay.take t sid).sessions ↔
      other ≠ sid ∧ (other ∈ relay.requests ∨ other ∈ relay.sessions)) ∧
      Disjoint (relay.take t sid).requests (relay.take t sid).sessions := by
  rcases closes with rfl | rfl
  · have absent : sid ∉ relay.sessions := fun crossed => apart (Or.inl ⟨Or.inr rfl,crossed⟩)
    rw [Relay.take_close]
    refine ⟨fun other => ?_,disjoint.mono_left (Finset.erase_subset _ _)⟩
    rw [Finset.mem_erase]
    have other_sessions (opened : other ∈ relay.sessions) : other ≠ sid := fun same => absent (same ▸ opened)
    tauto
  · have absent : sid ∉ relay.requests := fun crossed => apart (Or.inr ⟨Or.inr rfl,crossed⟩)
    rw [Relay.take_negClose]
    refine ⟨fun other => ?_,disjoint.mono_right (Finset.erase_subset _ _)⟩
    rw [Finset.mem_erase]
    have other_requests (opened : other ∈ relay.requests) : other ≠ sid := fun same => absent (same ▸ opened)
    tauto

theorem update_other {t : Str} (other : t ∉ ["REQ","CLOSE","NEG-OPEN","NEG-CLOSE"].map str)
    (args : List Json) : relay.update t args = relay := by
  simp only [List.map_cons,List.map_nil,List.mem_cons,List.not_mem_nil,or_false,not_or] at other
  obtain ⟨req,close,negOpen,negClose⟩ := other
  unfold Relay.update
  split
  · rw [Relay.take,if_neg req,if_neg close,if_neg negOpen,if_neg negClose]
  · rfl

/-- The id a message names is not open as the other kind. -/
def Relay.Apart (relay : Relay) (t : Str) (args : List Json) : Prop :=
  ∀ sid, idOf args = some sid → ¬ relay.Clashes t sid

/-- What a message leaves open of both kinds together, if it keeps apart from the other kind. -/
theorem update_members {t : Str} {args : List Json} (apart : relay.Apart t args)
    (disjoint : Disjoint relay.requests relay.sessions) :
    (∀ other, other ∈ (relay.update t args).requests ∨ other ∈ (relay.update t args).sessions ↔
      Opening t args other ∨ (other ∈ relay.requests ∨ other ∈ relay.sessions) ∧ ¬ Closing t args other) ∧
      Disjoint (relay.update t args).requests (relay.update t args).sessions := by
  cases named : idOf args with
  | none => simpa [Relay.update,named,Opening,Closing] using disjoint
  | some sid =>
    by_cases opens : t = str "REQ" ∨ t = str "NEG-OPEN"
    · obtain ⟨members,disjoint⟩ := take_opens opens (apart sid named) disjoint
      have stays := kinds_apart opens
      refine ⟨fun other => ?_,by simpa [Relay.update,named] using disjoint⟩
      simp [Relay.update,named,members,Opening,Closing,opens,stays,eq_comm]
    · by_cases closes : t = str "CLOSE" ∨ t = str "NEG-CLOSE"
      · obtain ⟨members,disjoint⟩ := take_closes closes (apart sid named) disjoint
        refine ⟨fun other => ?_,by simpa [Relay.update,named] using disjoint⟩
        simp [Relay.update,named,members,Opening,Closing,opens,closes,eq_comm,and_comm]
      · have other : relay.update t args = relay := by
          apply update_other
          simp only [List.map_cons,List.map_nil,List.mem_cons,List.not_mem_nil,or_false,not_or]
          exact ⟨fun req => opens (Or.inl req),fun close => closes (Or.inl close),
            fun negOpen => opens (Or.inr negOpen),fun negClose => closes (Or.inr negClose)⟩
        simpa [other,Opening,Closing,opens,closes] using disjoint

theorem receive_members {buf : Bytes} (apart : ¬ relay.Crosses buf) (disjoint : Disjoint relay.requests relay.sessions) :
    (∀ sid, sid ∈ (relay.receive buf).requests ∨ sid ∈ (relay.receive buf).sessions ↔
      Opens buf sid ∨ (sid ∈ relay.requests ∨ sid ∈ relay.sessions) ∧ ¬ Closes buf sid) ∧
      Disjoint (relay.receive buf).requests (relay.receive buf).sessions := by
  cases speaks : said buf with
  | none => simpa [Relay.receive,speaks,Opens,Closes] using disjoint
  | some message =>
    obtain ⟨t,args⟩ := message
    have within : relay.Apart t args := fun sid named clashes => apart ⟨_,speaks,sid,named,clashes⟩
    simpa [Relay.receive,speaks,Opens,Closes] using update_members within disjoint

theorem police_accounted (env : Env) (number : cfg.maxSubs ≠ .nan) (counted : Counted cfg lim relay) (buf : Bytes) :
    Accounted cfg relay (relay.receive buf) (¬ relay.Crosses buf) (police env cfg lim buf) := by
  have updates := police_updates env number counted.sized buf
  have after := updates.sized
  refine ⟨fun refused => ?_,fun apart accepted => ?_⟩
  · refine ⟨after.nodup,after.size,?_,counted.disjoint,after.bounded⟩
    rw [updates.refused refused]
    exact counted.members
  · obtain ⟨members,disjoint⟩ := receive_members apart counted.disjoint
    refine ⟨after.nodup,after.size,fun sid => ?_,disjoint,after.bounded⟩
    rw [updates.accepted accepted,members,counted.members]

end Steps

/-- The count follows a run of messages as long as no message uses an id of the other
kind, and every view on the way was within the bound. -/
def Bounded (cfg : Cfg) (lim : Limits) (messages : List Bytes) : Prop :=
  Uncrossed messages → Counted cfg lim (relayAfter messages) ∧
    ∀ before, before <+: messages → ((relayAfter before).count : Number) ≤ cfg.maxSubs.ceil

theorem bounded_polices (env : Env) {cfg : Cfg} (number : cfg.maxSubs ≠ .nan) :
    Polices env cfg (Bounded cfg) where
  tick lim messages ticks _ bounded uncrossed := by
    obtain ⟨counted,within⟩ := bounded uncrossed
    exact ⟨⟨counted.nodup,counted.size,counted.members,counted.disjoint,counted.bounded⟩,within⟩
  police lim messages buf bounded := by
    cases passed : (police env cfg lim buf).1 with
    | some v =>
      rw [if_neg (by simp),List.append_nil]
      intro uncrossed
      obtain ⟨counted,within⟩ := bounded uncrossed
      exact ⟨(police_accounted env number counted buf).refused (by simp [passed]),within⟩
    | none =>
      rw [if_pos rfl]
      intro uncrossed
      obtain ⟨earlier,apart⟩ := uncrossed_concat.mp uncrossed
      obtain ⟨counted,within⟩ := bounded earlier
      have after := (police_accounted env number counted buf).accepted apart passed
      rw [← relayAfter_concat] at after
      refine ⟨after,fun before started => ?_⟩
      rcases List.prefix_concat_iff.mp started with rfl | earlier
      · rw [after.count]
        exact after.bounded
      · exact within before earlier

/-- As long as no forwarded message uses an id that is open as the other kind, the
relay never has more open than the bound, for a bound that is a whole number. -/
theorem subscriptions_bounded (env : Env) (callbacks : List Callback)
    (bound : 0 ≤ (readCfg env).maxSubs) (whole : (readCfg env).maxSubs.ceil = (readCfg env).maxSubs)
    (uncrossed : Uncrossed (acceptedMessages (session env callbacks).2)) :
    ∀ before, before <+: acceptedMessages (session env callbacks).2 →
      ((relayAfter before).count : Number) ≤ (readCfg env).maxSubs := by
  have number : (readCfg env).maxSubs ≠ .nan := by
    intro nan
    rw [nan] at bound
    cases bound
  have least := Number.zero_le_ceil bound
  have initial : Bounded (readCfg env) (filter env (readCfg env)).lim [] := by
    intro _
    refine ⟨⟨List.nodup_nil,rfl,by simp [filter,relayAfter],Finset.disjoint_empty_left _,least⟩,?_⟩
    intro before started
    rw [List.prefix_nil.mp started]
    exact least
  have holds := session_limits env (bounded_polices env number) initial callbacks
  rw [← whole]
  exact (holds uncrossed).2

def opensBoth (request negentropy : String) : List Callback :=
  [sends upgradeRequest,sends (message (opening "REQ" request)),
    sends (message (opening "NEG-OPEN" negentropy))]

def opened (env : Env) (callbacks : List Callback) : Relay :=
  relayAfter (acceptedMessages (session env callbacks).2)

example : ¬ ((opened (listener "ws_max_subs=0.5") (opensBoth "a" "b")).count : Number) ≤
    (readCfg (listener "ws_max_subs=0.5")).maxSubs := by decide +kernel

theorem subscriptions_two : ((opened (listener "ws_max_subs=2") (opensBoth "a" "b")).count : Number) ≤
    (readCfg (listener "ws_max_subs=2")).maxSubs := by
  have accepted : acceptedMessages (session (listener "ws_max_subs=2") (opensBoth "a" "b")).2 =
      ([] ++ [bytes (opening "REQ" "a")]) ++ [bytes (opening "NEG-OPEN" "b")] := by decide +kernel
  have uncrossed : Uncrossed (acceptedMessages (session (listener "ws_max_subs=2") (opensBoth "a" "b")).2) := by
    rw [accepted]
    refine uncrossed_concat.mpr ⟨uncrossed_concat.mpr ⟨Uncrossed.nil,?_⟩,?_⟩
    · decide +kernel
    · decide +kernel
  exact subscriptions_bounded (listener "ws_max_subs=2") (opensBoth "a" "b") (by decide +kernel)
    (by decide +kernel) uncrossed _ (List.prefix_refl _)

/-- One id opens a subscription and a negentropy session and is counted once. -/
theorem shared_id : ¬ ((opened (listener "ws_max_subs=1") (opensBoth "a" "a")).count : Number) ≤
    (readCfg (listener "ws_max_subs=1")).maxSubs := by decide +kernel

end FipsShield.Engine
