import FipsShield.Containment

/-! The watch on the upstream's answer to a session classified as plain. -/
namespace FipsShield.Engine
open Text FipsShield.Core

/-- The answer starts with an HTTP/1.0 or HTTP/1.1 status line of status 101. -/
def Switching (answer : Bytes) : Prop :=
  bytes "HTTP/1.0 101" <+: answer ∨ bytes "HTTP/1.1 101" <+: answer

def chunksOf (callbacks : List Callback) : List Bytes :=
  (callbacks.map Callback.answer).filter (· ≠ [])

theorem chunksOf_flatten (callbacks : List Callback) :
    (chunksOf callbacks).flatten = responseStream callbacks := by
  rw [responseStream,List.flatMap]
  exact List.flatten_filter_ne_nil

theorem chunksOf_append (first second : List Callback) :
    chunksOf (first ++ second) = chunksOf first ++ chunksOf second := by
  simp [chunksOf]

theorem chunksOf_eq_nil (callbacks : List Callback) :
    chunksOf callbacks = [] ↔ responseStream callbacks = [] := by
  simp [chunksOf,responseStream]

private theorem first_chunk {callbacks : List Callback} (answered : responseStream callbacks ≠ []) :
    ∃ early data flags later, callbacks = early ++ .downstream data flags::later ∧
      responseStream early = [] ∧ data ≠ [] := by
  induction callbacks with
  | nil => contradiction
  | cons c rest ih =>
    cases silent : c.answer with
    | nil =>
      have still : responseStream rest ≠ [] := by simpa [responseStream,silent] using answered
      obtain ⟨early,data,flags,later,same,nothing,filled⟩ := ih still
      refine ⟨c::early,data,flags,later,by simp [same],?_,filled⟩
      simpa [responseStream,silent] using nothing
    | cons byte others =>
      cases c with
      | upstream data flags => simp [Callback.answer] at silent
      | downstream data flags =>
        have filled : data ≠ [] := by
          intro empty
          simp [Callback.answer,empty] at silent
        exact ⟨[],data,flags,rest,rfl,rfl,filled⟩

private theorem twelve :
    (bytes "HTTP/1.0 101").length = 12 ∧ (bytes "HTTP/1.1 101").length = 12 := by decide +kernel

private theorem plainText : (str "HTTP/1.0 101").all (·.toNat < 0x80) = true ∧
    (str "HTTP/1.1 101").all (·.toNat < 0x80) = true ∧
    (str "HTTP/1.0 101").map (fun u => UInt8.ofNat u.toNat) = bytes "HTTP/1.0 101" ∧
    (str "HTTP/1.1 101").map (fun u => UInt8.ofNat u.toNat) = bytes "HTTP/1.1 101" := by
  decide +kernel

theorem Switching.answered {answer : Bytes} (switching : Switching answer) : answer ≠ [] := by
  intro nothing
  rw [nothing,Switching,List.prefix_nil,List.prefix_nil] at switching
  obtain ⟨zero,one⟩ := twelve
  rcases switching with empty | empty
  · simp [empty] at zero
  · simp [empty] at one

/-- The test looks at sixteen bytes, enough for the twelve it asks for. -/
theorem switchingTest_iff (data : Bytes) :
    switchingTest (Text.toString (Buffer.slice data 0 16)) = true ↔ Switching data := by
  obtain ⟨zeroPlain,onePlain,zeroBytes,oneBytes⟩ := plainText
  have zero : ∀ u ∈ str "HTTP/1.0 101", u.toNat < 0x80 := by simpa using zeroPlain
  have one : ∀ u ∈ str "HTTP/1.1 101", u.toNat < 0x80 := by simpa using onePlain
  obtain ⟨zeroSize,oneSize⟩ := twelve
  have within (p : Bytes) (short : p.length = 12) : p <+: data.take 16 ↔ p <+: data := by
    rw [List.prefix_take_iff]
    exact ⟨And.left,fun started => ⟨started,by omega⟩⟩
  simp only [switchingTest,Bool.or_eq_true,List.isPrefixOf_iff_prefix,toString_startsWith _ zero,
    toString_startsWith _ one,zeroBytes,oneBytes,Switching,Buffer.slice,List.drop_zero]
  exact or_congr (within _ zeroSize) (within _ oneSize)

section Plain
variable (env : Env) (cfg : Cfg) {st : St}

def pass : Callback → Call
  | .upstream data flags => .send data flags.options
  | .downstream data flags => .send data flags.options

theorem respond_plain (alive : st.killed = false) (plain : st.mode = .plain) {c : Callback}
    (unwatched : st.checkedResponse = true ∨ c.answer = []) :
    respond env cfg st c = (st,[pass c]) := by
  cases c with
  | upstream data flags =>
    simp [respond,upstream,onData,alive,banCheck_plain env cfg plain,plain,pass]
  | downstream data flags =>
    have known : ¬ (st.mode = .plain ∧ st.checkedResponse = false ∧ data ≠ []) := by
      rintro ⟨_,unknown,filled⟩
      rcases unwatched with checked | empty
      · simp [unknown] at checked
      · exact filled empty
    simp only [respond,downstream,if_neg known,pass]

theorem run_plain (alive : st.killed = false) (plain : st.mode = .plain) {callbacks : List Callback}
    (unwatched : st.checkedResponse = true ∨ responseStream callbacks = []) :
    Transducer.run (callback env cfg) st callbacks =
      (st,callbacks.map fun c => (c.direction,pass c)) := by
  induction callbacks with
  | nil => rfl
  | cons c rest ih =>
    have now : st.checkedResponse = true ∨ c.answer = [] :=
      unwatched.imp_right fun nothing => (List.append_eq_nil_iff.mp nothing).1
    have later : st.checkedResponse = true ∨ responseStream rest = [] :=
      unwatched.imp_right fun nothing => (List.append_eq_nil_iff.mp nothing).2
    have step := respond_plain env cfg alive plain now
    have stays : (callback env cfg st c).1 = st := congrArg Prod.fst step
    rw [Transducer.run_cons,stays,ih later]
    simp [callback,step]

theorem forwardedDown_pass (callbacks : List Callback) :
    forwardedDown (callbacks.map fun c => (c.direction,pass c)) = responseStream callbacks := by
  rw [forwardedDown,List.flatMap_map,responseStream]
  apply List.flatMap_congr
  intro c _
  cases c <;> rfl

theorem forwardedDown_passedOn (callbacks : List Callback) :
    forwardedDown (passedOn callbacks) = responseStream callbacks := by
  induction callbacks with
  | nil => rfl
  | cons c rest ih =>
    cases c with
    | upstream data flags => exact ih
    | downstream data flags => exact congrArg (data ++ ·) ih

theorem read_checked (alive : st.killed = false) (data : Bytes) :
    (read env cfg st data).1.checkedResponse = st.checkedResponse := by
  unfold read
  split_ifs
  · rfl
  · rcases handshake_cases env cfg data with
      ⟨_,seen,rule,detail,live,_,same,cuts⟩ | ⟨_,_,waits⟩ | ⟨_,stop,_,_,done⟩
    · rw [cuts,← same]
      exact (violate_advances env cfg (live.trans alive) rule detail).checked
    · rw [waits]
      rfl
    · rw [done]
      simp only [classify]
      split_ifs
      · exact (pump_advances env cfg
          (show (upgraded (scanned st data) stop).killed = false from alive)).checked
      · rfl
      · rfl
  · exact (receive_advances env cfg alive data).checked

theorem upstream_checked (data : Bytes) (flags : Flags) :
    (upstream env cfg st data flags).1.checkedResponse = st.checkedResponse := by
  cases alive : st.killed with
  | true => rw [upstream_killed env cfg alive]
  | false =>
    rcases upstream_cases env cfg alive data flags with
      ⟨_,_,time,ticks,rule,detail,cuts⟩ | ⟨_,sends⟩ | ⟨_,_,time,ticks,reads⟩
    · rw [cuts]
      exact (violate_advances env cfg (clocked_alive alive time ticks) _ _).checked
    · rw [sends]
    · rw [reads]
      exact read_checked env cfg (clocked_alive alive time ticks) data

theorem respond_answer (plain : st.mode = .plain)
    (unknown : st.checkedResponse = false) {data : Bytes} (filled : data ≠ []) (flags : Flags) :
    respond env cfg st (.downstream data flags) =
      if switchingTest (Text.toString (Buffer.slice data 0 16)) then
        violate env cfg (latched st) .protocol (str "unclassified-upgrade")
      else (latched st,[.send data flags.options]) := by
  simp only [respond,downstream,if_pos (And.intro plain (And.intro unknown filled))]

end Plain

theorem session_unanswered (env : Env) (callbacks : List Callback)
    (unanswered : responseStream callbacks = []) :
    (session env callbacks).1.checkedResponse = false ∧ forwardedDown (session env callbacks).2 = [] := by
  revert unanswered
  refine session_rule (P := fun callbacks st trace => responseStream callbacks = [] →
    st.checkedResponse = false ∧ forwardedDown trace = []) (fun _ => ⟨rfl,rfl⟩) ?_ callbacks
  intro before st trace c earlier nothing
  rw [responseStream,List.flatMap_append,List.append_eq_nil_iff] at nothing
  obtain ⟨unchecked,silent⟩ := earlier nothing.1
  have empty : c.answer = [] := by simpa using nothing.2
  cases c with
  | upstream data flags =>
    refine ⟨(upstream_checked env (readCfg env) data flags).trans unchecked,?_⟩
    rw [forwardedDown_append,silent,List.nil_append,forwardedDown,List.flatMap_map]
    exact List.flatMap_eq_nil_iff.mpr fun call _ => by cases call <;> rfl
  | downstream data flags =>
    rw [Callback.answer] at empty
    subst empty
    refine ⟨by simpa [respond,downstream] using unchecked,?_⟩
    rw [forwardedDown_append,silent]
    simp [respond,downstream,forwardedDown,forwardedDownBytes,Callback.direction]

theorem backstop_plain (env : Env) (before later : List Callback)
    (plain : (session env before).1.mode = .plain) (unanswered : responseStream before = [])
    (switching : Switching (responseStream later)) :
    ((session env (before ++ later)).1.killed = true ∧
        forwardedDown (session env (before ++ later)).2 = []) ↔ (chunksOf later).length = 1 := by
  obtain ⟨unchecked,silent⟩ := session_unanswered env before unanswered
  have settled := session_settled env before
  have alive : (session env before).1.killed = false := by
    by_contra dead
    have checked := settled (Bool.eq_true_of_not_eq_false dead) plain
    simp [unchecked] at checked
  obtain ⟨early,data,flags,rest,rfl,nothing,filled⟩ := first_chunk switching.answered
  have chunks : chunksOf (early ++ .downstream data flags::rest) = data::chunksOf rest := by
    rw [chunksOf_append,(chunksOf_eq_nil early).mpr nothing]
    simp [chunksOf,Callback.answer,filled]
  have stream : responseStream (early ++ .downstream data flags::rest) =
      data ++ responseStream rest := by
    rw [← chunksOf_flatten,chunks,List.flatten_cons,chunksOf_flatten]
  have silence : forwardedDown (early.map fun c => (c.direction,pass c)) = [] := by
    rw [forwardedDown_pass,nothing]
  rw [stream] at switching
  rw [chunks,session_append,Transducer.run_append,
    run_plain env (readCfg env) alive plain (Or.inr nothing),Transducer.run_cons]
  simp only [callback,respond_answer env (readCfg env) plain unchecked filled,forwardedDown_append,
    silent,silence,List.nil_append]
  by_cases started : Switching data
  · rw [if_pos ((switchingTest_iff data).mpr started),
      violate_alive env (readCfg env) (latched_alive alive),
      run_killed env (readCfg env) rfl (fun _ _ => rfl),forwardedDown_passedOn,closing_eq]
    simp only [List.length_cons,Nat.add_eq_right,List.length_eq_zero_iff,chunksOf_eq_nil]
    constructor
    · intro quiet
      exact quiet.2
    · intro nothing
      exact ⟨rfl,nothing⟩
  · have single : chunksOf rest ≠ [] := by
      intro alone
      rw [(chunksOf_eq_nil rest).mp alone,List.append_nil] at switching
      exact started switching
    rw [if_neg (by simpa [switchingTest_iff] using started),
      run_plain env (readCfg env) (latched_alive alive)
        plain (Or.inl rfl)]
    constructor
    · intro quiet
      exact absurd (quiet.1.symm.trans alive) (by decide)
    · intro alone
      exact absurd (List.length_eq_zero_iff.mp (Nat.succ_injective alone)) single

/-- The answer arrives in one chunk, after the session has been classified as plain. -/
def AnsweredOnce (env : Env) (callbacks : List Callback) : Prop :=
  ∃ before later, callbacks = before ++ later ∧ (session env before).1.mode = .plain ∧
    responseStream before = [] ∧ (chunksOf later).length = 1

/-- A session whose answer has status 101 is cut with nothing of the answer forwarded
if and only if the answer arrives in one chunk after the session is plain. -/
theorem backstop_iff (env : Env) (callbacks : List Callback)
    (switching : Switching (responseStream callbacks)) :
    ((session env callbacks).1.killed = true ∧ forwardedDown (session env callbacks).2 = []) ↔
      AnsweredOnce env callbacks := by
  constructor
  · intro held
    obtain ⟨early,data,flags,rest,rfl,nothing,filled⟩ := first_chunk switching.answered
    have stream : responseStream (early ++ .downstream data flags::rest) =
        responseStream (.downstream data flags::rest) := by
      rw [responseStream,List.flatMap_append,← responseStream,nothing,List.nil_append,← responseStream]
    rw [stream] at switching
    by_cases plain : (session env early).1.mode = .plain
    · have alone := (backstop_plain env early _ plain nothing switching).mp held
      exact ⟨early,_,rfl,plain,nothing,alone⟩
    · have sent := held.2
      rw [session_append,Transducer.run_cons] at sent
      simp only [callback,respond_other env (readCfg env) plain,forwardedDown_append] at sent
      simp [forwardedDown,forwardedDownBytes,Callback.direction,filled] at sent
  · intro once
    obtain ⟨before,later,rfl,plain,nothing,alone⟩ := once
    have stream : responseStream (before ++ later) = responseStream later := by
      rw [responseStream,List.flatMap_append,← responseStream,nothing,List.nil_append,← responseStream]
    rw [stream] at switching
    exact (backstop_plain env before later plain nothing switching).mpr alone

theorem backstop_whole :
    (session (listener "") [sends plainRequest,answers switching]).1.killed = true ∧
      forwardedDown (session (listener "") [sends plainRequest,answers switching]).2 = [] :=
  (backstop_iff (listener "") [sends plainRequest,answers switching] (by unfold Switching; decide +kernel)).mpr
    ⟨[sends plainRequest],[answers switching],rfl,by decide +kernel,by decide +kernel,by decide +kernel⟩

/-- The same answer cut after its version reaches the client whole. -/
theorem backstop_cut :
    Switching (responseStream [answers (switching.take 8),answers (switching.drop 8)]) ∧
      (session (listener "") [sends plainRequest]).1.mode = .plain ∧
      (session (listener "") [sends plainRequest,answers (switching.take 8),
          answers (switching.drop 8)]).1.killed = false ∧
      forwardedDown (session (listener "") [sends plainRequest,answers (switching.take 8),
          answers (switching.drop 8)]).2 = switching := by
  unfold Switching
  decide +kernel

end FipsShield.Engine
