import FipsShield.Limits
import FipsShield.Library.TokenBucket

/-! What the rate buckets admit: every message that is accepted is charged to the
buckets of its type, and they hold its rate over any stretch of a session. -/
namespace FipsShield.Engine
open Text FipsShield.Core

def seconds (milliseconds : Int) : ℚ := milliseconds / 1000

/-- The bucket behind `b`, in seconds. -/
structure Bucket.Measures (b : Bucket) (m : TokenBucket ℚ) : Prop where
  rate : b.rate = .fin m.rate
  burst : b.burst = .fin m.burst
  tokens : b.tokens = .fin m.tokens
  time : m.time = seconds b.t

theorem takeToken_take {b : Bucket} {m : TokenBucket ℚ} (measures : b.Measures m) (now : Int) :
    (takeToken b now).1 = (m.take (seconds now)).1 ∧
      (takeToken b now).2.Measures (m.take (seconds now)).2 := by
  have refill : Number.min b.burst (b.tokens + .fin ((now - b.t : Int) / 1000) * b.rate) =
      .fin (m.refilled (seconds now)) := by
    rw [measures.rate,measures.burst,measures.tokens,TokenBucket.refilled,measures.time]
    have flows : ((now - b.t : Int) : ℚ) / 1000 * m.rate = (seconds now - seconds b.t) * m.rate := by
      unfold seconds
      push_cast
      ring
    rw [← flows]
    exact Number.min_fin _ _
  have one : (1 : Number) = .fin 1 := rfl
  simp only [takeToken,refill,TokenBucket.take,one,Number.fin_lt_fin]
  split_ifs
  · exact ⟨rfl,measures.rate,measures.burst,rfl,rfl⟩
  · exact ⟨rfl,measures.rate,measures.burst,Number.fin_sub_fin _ _,rfl⟩

def Meter.types : Meter → List String
  | .msg => []
  | .event => ["EVENT","AUTH"]
  | .req => ["REQ","COUNT","NEG-OPEN"]

/-- The clock reading at which a message inspected after `n` readings is charged to a
bucket, if it is. -/
def due (env : Env) (meter : Meter) (buf : Bytes) (n : Nat) : Option Int :=
  if meter = .msg then some (env.now n)
  else match said buf with
    | some (t,_) => if (meter.types.map str).contains t then some (env.now (n + 1)) else none
    | none => none

abbrev Drawn : Bucket → Bucket → Prop := Relation.ReflTransGen fun b c => ∃ now, c = (takeToken b now).2

/-- What a bucket is after an inspection that charges it at the time given, if at all. -/
structure Booked (b : Bucket) (time : Option Int) (found : Option Violation) (after : Bucket) : Prop where
  drawn : Drawn b after
  accepted : found = none → match time with
    | some now => takeToken b now = (true,after)
    | none => after = b

def Keeps (lim : Limits) (done : Option Violation × Limits) : Prop :=
  ∀ meter, done.2.bucket meter = lim.bucket meter

section Police
variable {env : Env} {cfg : Cfg} {lim : Limits}

theorem Keeps.refl (found : Option Violation) : Keeps lim (found,lim) := fun _ => rfl

theorem Keeps.booked {done : Option Violation × Limits} (keeps : Keeps lim done) (meter : Meter) :
    Booked (lim.bucket meter) none done.1 (done.2.bucket meter) := by
  rw [keeps meter]
  exact ⟨.refl,fun _ => rfl⟩

theorem charge_bucket (own meter : Meter) : (charge env lim own).2.bucket meter =
    if meter = own then (takeToken (lim.bucket own) (env.now lim.ticks)).2 else lim.bucket meter := by
  cases own <;> cases meter <;> rfl

theorem paying_booked {own meter : Meter} {time : Option Int} {next : Limits → Option Violation × Limits}
    (once : meter = own → time = none)
    (later : Booked ((charge env lim own).2.bucket meter) time (next (charge env lim own).2).1
      ((next (charge env lim own).2).2.bucket meter)) :
    Booked (lim.bucket meter) (if meter = own then some (env.now lim.ticks) else time)
      (paying env lim own next).1 ((paying env lim own next).2.bucket meter) := by
  have first : Drawn (lim.bucket meter) ((charge env lim own).2.bucket meter) := by
    rw [charge_bucket]
    split_ifs with same
    · rw [same]
      exact .single ⟨_,rfl⟩
    · exact .refl
  simp only [paying]
  split_ifs with same paid paid
  · refine ⟨first.trans later.drawn,fun accepted => ?_⟩
    have kept := later.accepted accepted
    rw [once same] at kept
    rw [kept,charge_bucket,if_pos same,same]
    exact Prod.ext paid rfl
  · exact ⟨first,fun accepted => by simp at accepted⟩
  · refine ⟨first.trans later.drawn,fun accepted => ?_⟩
    have kept := later.accepted accepted
    rw [charge_bucket,if_neg same] at kept
    exact kept
  · exact ⟨first,fun accepted => by simp at accepted⟩

theorem openSub_keeps (sid : Str) : Keeps lim (openSub cfg lim sid) := by
  unfold openSub
  split_ifs <;> exact fun meter => by cases meter <;> rfl

theorem close_keeps (args : List Json) : Keeps lim (close lim args) := by
  unfold close closeSub
  split
  · split_ifs <;> exact fun meter => by cases meter <;> rfl
  · exact .refl none

theorem query_booked (sid : Option Json) (filters : List (Option Json)) (opens : Bool) (meter : Meter) :
    Booked (lim.bucket meter) (if meter = .req then some (env.now lim.ticks) else none)
      (query env cfg lim sid filters opens).1 ((query env cfg lim sid filters opens).2.bucket meter) := by
  apply paying_booked (fun _ => rfl)
  apply Keeps.booked
  split
  · exact .refl _
  · split
    · exact .refl _
    · split_ifs
      · exact openSub_keeps _
      · exact .refl _

theorem event_booked (args : List Json) (meter : Meter) :
    Booked (lim.bucket meter) (if meter = .event then some (env.now lim.ticks) else none)
      (event env cfg lim args).1 ((event env cfg lim args).2.bucket meter) := by
  apply paying_booked (fun _ => rfl)
  apply Keeps.booked
  split
  · split
    · split_ifs <;> exact .refl _
    · exact .refl _
  · exact .refl _

theorem types_apart (own meter : Meter) :
    ∀ name ∈ own.types, (str name ∈ meter.types.map str ↔ meter = own) := by
  cases own <;> cases meter <;> decide +kernel

theorem types_free (meter : Meter) : str "CLOSE" ∉ meter.types.map str ∧ str "NEG-CLOSE" ∉ meter.types.map str := by
  cases meter <;> decide +kernel

theorem byType_booked (t : Str) (args : List Json) (meter : Meter) :
    Booked (lim.bucket meter) (if (meter.types.map str).contains t then some (env.now lim.ticks) else none)
      (byType env cfg lim t args).1 ((byType env cfg lim t args).2.bucket meter) := by
  have timed (own : Meter) (name : String) (member : name ∈ own.types) (named : t = str name) :
      (if (meter.types.map str).contains t then some (env.now lim.ticks) else none) =
        if meter = own then some (env.now lim.ticks) else none := by
    rw [named]
    exact if_congr (List.contains_iff_mem.trans (types_apart own meter name member)) rfl rfl
  have free (absent : t ∉ meter.types.map str) :
      (if (meter.types.map str).contains t then some (env.now lim.ticks) else none) = none :=
    if_neg (absent ∘ List.contains_iff_mem.mp)
  generalize (if (meter.types.map str).contains t then some (env.now lim.ticks) else none) = time at timed free ⊢
  unfold byType
  split_ifs with isEvent isRequest isNegOpen isAuth isClose
  · rw [timed .event "EVENT" (by decide) isEvent]
    exact event_booked args meter
  · have asks : time = if meter = .req then some (env.now lim.ticks) else none := by
      rcases isRequest with isReq | isCount
      · exact timed .req "REQ" (by decide) isReq
      · exact timed .req "COUNT" (by decide) isCount
    rw [asks]
    exact query_booked args.head? _ _ meter
  · rw [timed .req "NEG-OPEN" (by decide) isNegOpen]
    exact query_booked args.head? _ _ meter
  · rw [timed .event "AUTH" (by decide) isAuth]
    apply paying_booked (fun _ => rfl)
    exact Keeps.booked (.refl none) meter
  · have absent : t ∉ meter.types.map str := by
      rcases isClose with same | same <;> rw [same]
      · exact (types_free meter).1
      · exact (types_free meter).2
    rw [free absent]
    exact (close_keeps args).booked meter
  · have absent : t ∉ meter.types.map str := by
      rw [not_or] at isRequest
      cases meter <;> simp [Meter.types,isEvent,isRequest,isNegOpen,isAuth]
    rw [free absent]
    exact Keeps.booked (.refl none) meter

/-- An accepted message has taken a token from every bucket it is due to, at the reading it
is due, and changed no other; one that is refused may have drawn on them. -/
theorem police_booked (env : Env) (cfg : Cfg) (lim : Limits) (buf : Bytes) (meter : Meter) :
    Booked (lim.bucket meter) (due env meter buf lim.ticks) (police env cfg lim buf).1
      ((police env cfg lim buf).2.bucket meter) := by
  unfold due
  apply paying_booked
  · rintro rfl
    split
    · exact if_neg (by simp [Meter.types])
    · rfl
  · cases parsed : Json.parse (Text.toString buf) with
    | none =>
      have unsaid : said buf = none := by simp [said,parsed]
      rw [unsaid]
      exact Keeps.booked (.refl _) meter
    | some msg =>
      cases message : asMessage msg with
      | none =>
        have unsaid : said buf = none := by simp [said,parsed,message]
        rw [unsaid]
        simp only [message]
        exact Keeps.booked (.refl _) meter
      | some pair =>
        obtain ⟨t,args⟩ := pair
        have spoken : said buf = some (t,args) := by simp [said,parsed,message]
        rw [spoken]
        simp only [message]
        by_cases allowed : t ∈ cfg.types
        · rw [if_pos allowed]
          exact byType_booked t args meter
        · rw [if_neg allowed]
          exact ⟨.refl,fun accepted => by simp at accepted⟩

end Police

structure Charge where
  message : Bytes
  reading : Nat

/-- The messages accepted on the way from one state of the limits to another: by readings of
the clock elsewhere, and by inspections. -/
inductive Ledger (env : Env) (cfg : Cfg) (start : Limits) : Limits → List Charge → Prop
  | start : Ledger env cfg start start []
  | clock {lim charges} (ticks : Nat) (before : Ledger env cfg start lim charges) :
      Ledger env cfg start {lim with ticks} charges
  | accepted {lim charges} (buf : Bytes) (before : Ledger env cfg start lim charges)
      (passed : (police env cfg lim buf).1 = none) :
      Ledger env cfg start (police env cfg lim buf).2 (charges ++ [⟨buf,lim.ticks⟩])
  | refused {lim charges} (buf : Bytes) (before : Ledger env cfg start lim charges)
      (found : (police env cfg lim buf).1 ≠ none) : Ledger env cfg start (police env cfg lim buf).2 charges

def times (env : Env) (meter : Meter) (charges : List Charge) : List Int :=
  charges.filterMap fun c => due env meter c.message c.reading

/-- From any charge to any later one there are no more, both counted, than the burst and
what the rate gives for the time between them. -/
def PacedBy (rate burst : ℚ) (times : List Int) : Prop :=
  ∀ before during after first last, times = before ++ during ++ after → during.head? = some first →
    during.getLast? = some last → (during.length : ℚ) ≤ burst + rate * ((last - first : Int) : ℚ) / 1000

/-- The tokens of these charges are missing from the bucket. -/
def Bucket.Lacks (b : Bucket) (rate burst : ℚ) (times : List Int) : Prop :=
  ∃ m : TokenBucket ℚ, b.Measures m ∧ m.rate = rate ∧ m.burst = burst ∧
    m.Metered (times.map seconds)

theorem Bucket.Lacks.drawn {b after : Bucket} {rate burst : ℚ} {times : List Int}
    (lacks : b.Lacks rate burst times) (drawn : Drawn b after) : after.Lacks rate burst times := by
  induction drawn with
  | refl => exact lacks
  | tail _ step ih =>
    obtain ⟨now,rfl⟩ := step
    obtain ⟨m,measures,rates,bursts,metered⟩ := ih
    refine ⟨_,(takeToken_take measures now).2,?_,?_,metered.spend _⟩
    · rw [TokenBucket.take_rate,rates]
    · rw [TokenBucket.take_burst,bursts]

theorem Bucket.Lacks.charged {b after : Bucket} {rate burst : ℚ} {times : List Int} {now : Int}
    (lacks : b.Lacks rate burst times) (taken : takeToken b now = (true,after)) :
    after.Lacks rate burst (times ++ [now]) := by
  obtain ⟨m,measures,rates,bursts,metered⟩ := lacks
  obtain ⟨same,left⟩ := takeToken_take measures now
  rw [taken] at same left
  refine ⟨_,left,?_,?_,?_⟩
  · rw [TokenBucket.take_rate,rates]
  · rw [TokenBucket.take_burst,bursts]
  · rw [List.map_append]
    exact metered.take same.symm

theorem Bucket.Lacks.paced {b : Bucket} {rate burst : ℚ} {times : List Int}
    (lacks : b.Lacks rate burst times) : PacedBy rate burst times := by
  obtain ⟨m,_,rfl,rfl,metered⟩ := lacks
  intro before during after first last parted head final
  have bound := metered.paced (before.map seconds) (during.map seconds) (after.map seconds)
    (seconds first) (seconds last) (by simp [parted]) (by simp [List.head?_map,head]) (by simp [List.getLast?_map,final])
  rw [List.length_map] at bound
  have same : m.rate * ((last - first : Int) : ℚ) / 1000 = (seconds last - seconds first) * m.rate := by
    unfold seconds
    push_cast
    ring
  rw [same]
  exact bound

theorem times_concat (env : Env) (meter : Meter) (charges : List Charge) (c : Charge) :
    times env meter (charges ++ [c]) =
      times env meter charges ++ (due env meter c.message c.reading).toList := by
  rw [times,List.filterMap_append,List.filterMap_cons]
  cases due env meter c.message c.reading <;> rfl

theorem Ledger.lacks {env : Env} {cfg : Cfg} {start lim : Limits} {charges : List Charge}
    (ledger : Ledger env cfg start lim charges) {meter : Meter} {rate burst : ℚ}
    (full : (start.bucket meter).Lacks rate burst []) :
    (lim.bucket meter).Lacks rate burst (times env meter charges) := by
  induction ledger with
  | start => exact full
  | clock ticks _ ih => cases meter <;> exact ih
  | @accepted lim charges buf _ passed ih =>
    have booked := police_booked env cfg lim buf meter
    have after := booked.accepted passed
    rw [times_concat]
    cases charged : due env meter buf lim.ticks with
    | none =>
      rw [charged] at after
      simpa [after,charged] using ih
    | some now =>
      rw [charged] at after
      exact ih.charged after
  | refused buf _ _ ih => exact ih.drawn (police_booked env cfg _ buf meter).drawn

theorem start_lacks {env : Env} {meter : Meter} {rate burst : ℚ}
    (rates : ((filter env (readCfg env)).lim.bucket meter).rate = .fin rate)
    (bursts : ((filter env (readCfg env)).lim.bucket meter).burst = .fin burst) :
    ((filter env (readCfg env)).lim.bucket meter).Lacks rate burst [] := by
  refine ⟨⟨rate,burst,burst,_⟩,⟨rates,bursts,?_,rfl⟩,rfl,rfl,.nil⟩
  rw [← bursts]
  cases meter <;> rfl

theorem session_ledger (env : Env) (callbacks : List Callback) :
    ∃ charges, Ledger env (readCfg env) (filter env (readCfg env)).lim (session env callbacks).1.lim charges ∧
      charges.map Charge.message = acceptedMessages (session env callbacks).2 := by
  apply session_limits env (P := fun lim messages => ∃ charges,
    Ledger env (readCfg env) (filter env (readCfg env)).lim lim charges ∧ charges.map Charge.message = messages)
  · refine ⟨?_,?_⟩
    · intro lim messages ticks _ found
      obtain ⟨charges,ledger,same⟩ := found
      exact ⟨charges,.clock ticks ledger,same⟩
    · intro lim messages buf found
      obtain ⟨charges,ledger,same⟩ := found
      split_ifs with passed
      · exact ⟨_,.accepted buf ledger passed,by simp [same]⟩
      · exact ⟨charges,.refused buf ledger passed,by simp [same]⟩
  · exact ⟨[],.start,rfl⟩

theorem session_forwarded (env : Env) (callbacks : List Callback)
    (upgraded : (session env callbacks).1.mode = .ws) :
    ∃ head body sent, CutHead (clientStream callbacks) head ∧ clientStream callbacks = head ++ body ∧
      forwardedUp (session env callbacks).2 = fromString (Text.toString head) ++ sent ∧
      (assemble (Frame.split sent).1).messages = acceptedMessages (session env callbacks).2 := by
  obtain ⟨head,body,sent,cut,stream,forwarded,flow⟩ := (session_inspecting env callbacks).upgraded upgraded
  exact ⟨head,body,sent,cut,stream,forwarded,flow.inspected.messages.symm⟩

/-- Every message that reaches the relay has been charged to the bucket of all messages and to
that of its type, and from any charge to any later one a bucket has admitted no more messages
than its burst and its rate over the time between them, whatever the clock does. -/
theorem messages_paced (env : Env) (callbacks : List Callback) :
    ((session env callbacks).1.mode = .ws → ∃ head body sent, CutHead (clientStream callbacks) head ∧
        clientStream callbacks = head ++ body ∧
        forwardedUp (session env callbacks).2 = fromString (Text.toString head) ++ sent ∧
        (assemble (Frame.split sent).1).messages = acceptedMessages (session env callbacks).2) ∧
      (∃ charges, Ledger env (readCfg env) (filter env (readCfg env)).lim (session env callbacks).1.lim charges ∧
        charges.map Charge.message = acceptedMessages (session env callbacks).2) ∧
      (∀ lim buf, (police env (readCfg env) lim buf).1 = none → ∀ meter now,
        due env meter buf lim.ticks = some now →
        takeToken (lim.bucket meter) now = (true,(police env (readCfg env) lim buf).2.bucket meter)) ∧
      ∀ lim charges, Ledger env (readCfg env) (filter env (readCfg env)).lim lim charges →
        ∀ meter rate burst, ((filter env (readCfg env)).lim.bucket meter).rate = .fin rate →
          ((filter env (readCfg env)).lim.bucket meter).burst = .fin burst →
          PacedBy rate burst (times env meter charges) := by
  refine ⟨session_forwarded env callbacks,session_ledger env callbacks,?_,?_⟩
  · intro lim buf passed meter now charged
    have after := (police_booked env (readCfg env) lim buf meter).accepted passed
    rw [charged] at after
    exact after
  · intro lim charges ledger meter rate burst rates bursts
    exact (ledger.lacks (start_lacks rates bursts)).paced

/-! ## Which calls succeed -/

section Calls
open TokenBucket

/-- `bucket` and `takeToken`, on a clock whose readings in milliseconds are any rationals. -/
def bucketAt (rate burst now : ℚ) : TokenBucket ℚ := ⟨rate,burst,burst,now⟩

def takeTokenAt (b : TokenBucket ℚ) (now : ℚ) : Bool × TokenBucket ℚ :=
  let tokens := min b.burst (b.tokens + (now - b.time) / 1000 * b.rate)
  if tokens < 1 then (false,{b with tokens,time := now})
  else (true,{b with tokens := tokens - 1,time := now})

/-- The bucket and the readings of its clock, in seconds. -/
def inSeconds (b : TokenBucket ℚ) : TokenBucket ℚ := {b with time := b.time / 1000}

theorem takeTokenAt_take (b : TokenBucket ℚ) (now : ℚ) : (takeTokenAt b now).1 = ((inSeconds b).take (now / 1000)).1 ∧
    inSeconds (takeTokenAt b now).2 = ((inSeconds b).take (now / 1000)).2 := by
  have refill : min b.burst (b.tokens + (now - b.time) / 1000 * b.rate) = (inSeconds b).refilled (now / 1000) := by
    have flows : (now - b.time) / 1000 * b.rate = (now / 1000 - b.time / 1000) * b.rate := by ring
    rw [flows]
    rfl
  simp only [takeTokenAt,TokenBucket.take,refill]
  split_ifs <;> exact ⟨rfl,rfl⟩

/-- Of a bucket that was full a call is granted exactly where, from any earlier call on, those
that were granted and itself are no more than the burst and what the rate brings meanwhile; on
the whole milliseconds of its own clock the engine grants the same. -/
theorem takeToken_granted_iff {rate : ℚ} (nonneg : 0 ≤ rate) (burst : ℚ) {start : ℚ} {t : Nat → ℚ} (begun : start ≤ t 0) :
    (∀ n, answer takeTokenAt (bucketAt rate burst start) t n = true ↔
        ∀ i ≤ n, (granted takeTokenAt (bucketAt rate burst start) t i n : ℚ) + 1 ≤ burst + rate * (t n - t i) / 1000) ∧
      ∀ (created : Int) (readings : Nat → Int), start = created → (∀ n, t n = readings n) →
        ∀ n, answer takeToken (bucket (.fin rate) (.fin burst) created) readings n =
          answer takeTokenAt (bucketAt rate burst start) t n := by
  have same : ∀ n, answer takeTokenAt (bucketAt rate burst start) t n =
      answer TokenBucket.take (inSeconds (bucketAt rate burst start)) (fun n => t n / 1000) n :=
    answer_related (R := fun b m => inSeconds b = m) rfl fun n b m related => by
      rw [← related]
      exact takeTokenAt_take b (t n)
  refine ⟨fun n => ?_,?_⟩
  · have begun' : start / 1000 ≤ t 0 / 1000 := by linarith
    rw [same,TokenBucket.answer_iff (b := inSeconds (bucketAt rate burst start)) rfl nonneg begun' n]
    refine forall₂_congr fun i _ => ?_
    have flows : rate * (t n - t i) / 1000 = (t n / 1000 - t i / 1000) * rate := by ring
    rw [granted_congr same i n,flows]
    exact Iff.rfl
  · rintro created readings rfl whole n
    rw [same]
    refine answer_related (R := fun b m => b.Measures m) ⟨rfl,rfl,rfl,rfl⟩ (fun n b m measures => ?_) n
    rw [whole]
    exact takeToken_take measures (readings n)

theorem takeToken_granted_steady : answer takeTokenAt (bucketAt 2 1 0) (fun n => 500 * n) 2 = true ∧
    (granted takeTokenAt (bucketAt 2 1 0) (fun n => 500 * n) 0 2 : ℚ) + 1 ≤ 1 + 2 * (500 * (2 : Nat) - 500 * (0 : Nat)) / 1000 := by
  have third : answer takeTokenAt (bucketAt 2 1 0) (fun n => 500 * n) 2 = true := by decide +kernel
  exact ⟨third,((@takeToken_granted_iff 2 (by norm_num) 1 0 (fun n => 500 * n) (by norm_num)).1 2).mp third 0 (by decide)⟩

end Calls

end FipsShield.Engine
