import FipsShield.Banlist.Script
import FipsShield.Library.Transducer
import Mathlib.Data.List.Nodup
import Mathlib.Logic.Function.Basic

/-! `shield-ban` processes on one banlist, each making one step at a time in any order:
the lock, the look at the file, the private file that replaces it, and the exit. -/
namespace FipsShield.Banlist.Processes
open Text Numeral Transducer

inductive Call where
  | ban (ip ttl : Str)
  | unban (ip : Str)
  | check (ip : Str)
  | list

/-- What a process does when it runs alone, with its readings of the clock. -/
def Call.run (first now : Nat) : Call → Option Str → Outcome
  | .ban ip ttl => Banlist.ban first now ip ttl
  | .unban ip => Banlist.unban now ip
  | .check ip => Banlist.check now ip
  | .list => Banlist.list now

structure Exit where
  status : Nat
  out : Str
  err : Str
  deriving DecidableEq

def exitOf (o : Outcome) : Exit := ⟨o.status,o.out,o.err⟩

inductive Edit where
  | ban (first : Nat) (ip ttl : Str) (till : Int)
  | unban (ip : Str)
  deriving DecidableEq

namespace Edit

def first : Edit → Nat
  | .ban first _ _ _ => first
  | .unban _ => 0

/-- What `rewrite` reads. -/
def written (entries : Str) : Edit → Str
  | .ban _ ip _ till => without ip entries ++ ip ++ 0x20 :: intText till ++ str "\n"
  | .unban ip => without ip entries

def announced : Edit → Exit
  | .ban _ ip ttl till =>
    ⟨0,announce ip (intText till),if representable (decimalValue ttl) then [] else
      str "[: " ++ ttl ++ str ": integer expression expected\n"⟩
  | .unban ip => ⟨0,str "unbanned " ++ ip ++ str "\n",[]⟩

end Edit

inductive Task where
  | edit (work : Edit)
  | check (ip : Str)
  | list
  deriving DecidableEq

inductive Process where
  | expiry (ip ttl : Str)
  | lock (edit : Edit)
  | look (task : Task)
  | clock (task : Task)
  | read (task : Task) (now : Nat)
  | write (edit : Edit) (now : Nat) (entries : Str)
  | rename (edit : Edit) (now : Nat)
  | exiting (locked : Bool) (exit : Exit)
  | exited (exit : Exit)
  deriving DecidableEq

def launch : Call → Process
  | .ban ip ttl =>
    if ip = [] ∨ ttl = [] then .exiting false ⟨1,[],str "usage: shield-ban ban <ip> <seconds>\n"⟩
    else if !isInteger ttl then
      .exiting false ⟨2,[],str "shield-ban: seconds must be an integer, got '" ++ ttl ++ str "'\n"⟩
    else .expiry ip ttl
  | .unban ip =>
    if ip = [] then .exiting false ⟨1,[],str "usage: shield-ban unban <ip>\n"⟩ else .lock (.unban ip)
  | .check ip =>
    if ip = [] then .exiting false ⟨1,[],str "usage: shield-ban check <ip>\n"⟩ else .look (.check ip)
  | .list => .look .list

def found (ip entries : Str) : Exit :=
  let lines := (Lines.records newline entries).filter fun line => equal (column 1 line) ip
  let till := captured (Lines.written 0x0A (lines.map (column 2)))
  if till ≠ [] then ⟨0,announce ip till,[]⟩ else ⟨1,str "not banned " ++ ip ++ str "\n",[]⟩

variable {ι : Type}

/-- What is seen of a step, with the readings of the clock behind it. -/
inductive Event (ι : Type) where
  | locked (p : ι)
  | seen (p : ι) (now : Nat)
  | replaced (p : ι) (first now : Nat)

/-- The printed entries go to the private file, or make the answer. -/
def Task.proceed (p : ι) (now : Nat) (entries : Str) : Task → Process × List (Event ι)
  | .edit work => (.write work now entries,[])
  | .check ip => (.exiting false (found ip entries),[.seen p now])
  | .list => (.exiting false ⟨0,entries,[]⟩,[.seen p now])

structure System (ι : Type) where
  file : Option Str
  holder : Option ι
  temps : ι → Option Str
  procs : ι → Process

def System.become [DecidableEq ι] (s : System ι) (p : ι) (proc : Process) : System ι :=
  {s with procs := Function.update s.procs p proc}

/-- A step of one process, at a reading of the clock; a step that would fail is not made. -/
def step [DecidableEq ι] (s : System ι) : ι × Nat → System ι × List (Event ι)
  | (p,now) =>
    match s.procs p with
    | .expiry ip ttl =>
      match expiry now ttl with
      | some till => (s.become p (.lock (.ban now ip ttl till)),[])
      | none =>
        let complaint := if representable (decimalValue ttl) then [] else
          str "[: " ++ ttl ++ str ": integer expression expected\n"
        (s.become p (.exiting false ⟨1,[],complaint ++ ttl ++
          str ": value too great for base (error token is \"" ++ ttl ++ str "\")\n"⟩),[])
    | .lock edit =>
      if s.holder.isNone then ({s.become p (.look (.edit edit)) with holder := some p},[.locked p]) else (s,[])
    | .look task =>
      match s.file with
      -- without a file the clock is not read
      | none => (s.become p (task.proceed p 0 []).1,(task.proceed p 0 []).2)
      | some _ => (s.become p (.clock task),[])
    | .clock task => (s.become p (.read task now),[])
    | .read task read =>
      match s.file with
      | none => (s,[])
      | some text =>
        let entries := select (active read) text
        (s.become p (task.proceed p read entries).1,(task.proceed p read entries).2)
    | .write edit read entries =>
      ({s.become p (.rename edit read) with temps := Function.update s.temps p (some (edit.written entries))},[])
    | .rename edit read =>
      match s.temps p with
      | none => (s,[])
      | some text =>
        ({s.become p (.exiting true edit.announced) with file := some text,temps := Function.update s.temps p none},
          [.replaced p edit.first read])
    | .exiting locked exit =>
      ({s.become p (.exited exit) with holder := if locked then none else s.holder},[])
    | .exited _ => (s,[])

def initial (calls : ι → Call) (file : Option Str) : System ι :=
  ⟨file,none,fun _ => none,fun p => launch (calls p)⟩

/-! ## What a run has done -/

/-- The processes that have taken the lock, in order. -/
def locks (trace : List (Event ι)) : List ι :=
  trace.filterMap fun
    | .locked p => some p
    | _ => none

/-- The processes that have replaced the banlist, in order, and their readings of the clock. -/
def updates (trace : List (Event ι)) : List (ι × Nat × Nat) :=
  trace.filterMap fun
    | .replaced p first now => some (p,first,now)
    | _ => none

def content (calls : ι → Call) (file : Option Str) (made : List (ι × Nat × Nat)) : Option Str :=
  made.foldl (fun file u => ((calls u.1).run u.2.1 u.2.2 file).file) file

theorem content_concat (calls : ι → Call) (file : Option Str) (made : List (ι × Nat × Nat)) (u : ι × Nat × Nat) :
    content calls file (made ++ [u]) = ((calls u.1).run u.2.1 u.2.2 (content calls file made)).file := by
  simp [content]

/-- What a process leaves of its work: the replaced banlist, or a look at it. -/
def Call.mark (p : ι) (first now : Nat) : Call → Event ι
  | .ban _ _ | .unban _ => .replaced p first now
  | .check _ | .list => .seen p now

/-- A process answers as it would alone, on the banlist between two commands; or it has
refused its arguments, as it does whatever the banlist. -/
def Answered (calls : ι → Call) (file : Option Str) (trace : List (Event ι)) (p : ι) (exit : Exit) : Prop :=
  (∃ before first now after, trace = before ++ (calls p).mark p first now::after ∧
    exit = exitOf ((calls p).run first now (content calls file (updates before)))) ∨
  p ∉ locks trace ∧ ∀ first now file, (calls p).run first now file = ⟨exit.status,exit.out,exit.err,file⟩

/-! ## The answers of one process -/

/-- The seconds of a ban are an error at every time or at none. -/
theorem expiry_none {now : Nat} {ttl : Str} (error : expiry now ttl = none) (first : Nat) : expiry first ttl = none := by
  unfold expiry at *
  split_ifs at error ⊢
  simpa using error

theorem check_found {ip : Str} (given : ip ≠ []) (now : Nat) (file : Option Str) :
    exitOf (Banlist.check now ip file) = found ip (activeEntries now file) := by
  simp only [Banlist.check,if_neg given,apply_ite exitOf]
  rfl

/-- The edit is that of the call, whose arguments have been checked. -/
def Edit.Of (call : Call) : Edit → Prop
  | .ban first ip ttl till =>
    call = .ban ip ttl ∧ ¬(ip = [] ∨ ttl = []) ∧ isInteger ttl = true ∧ expiry first ttl = some till
  | .unban ip => call = .unban ip ∧ ip ≠ []

theorem Edit.Of.run {call : Call} {edit : Edit} (own : edit.Of call) (now : Nat) (file : Option Str) :
    call.run edit.first now file = ⟨edit.announced.status,edit.announced.out,edit.announced.err,
      some (edit.written (activeEntries now file))⟩ := by
  cases edit with
  | ban first ip ttl till =>
    obtain ⟨rfl,given,integer,expires⟩ := own
    simp [Call.run,Banlist.ban,Edit.first,Edit.announced,Edit.written,given,integer,expires]
  | unban ip =>
    obtain ⟨rfl,given⟩ := own
    simp [Call.run,Banlist.unban,Edit.announced,Edit.written,given]

theorem Edit.Of.mark {call : Call} {edit : Edit} (own : edit.Of call) (p : ι) (first now : Nat) :
    call.mark p first now = .replaced p first now := by
  cases edit <;> rw [own.1] <;> rfl

def Task.Of (call : Call) : Task → Prop
  | .edit work => work.Of call
  | .check ip => call = .check ip ∧ ip ≠ []
  | .list => call = .list

/-! ## The invariant -/

def Process.holds : Process → Bool
  | .look (.edit _) | .clock (.edit _) | .read (.edit _) _ | .write _ _ _ | .rename _ _ => true
  | .exiting locked _ => locked
  | _ => false

/-- The process has the lock and has not replaced the banlist. -/
def Process.pending : Process → Bool
  | .exiting _ _ => false
  | proc => proc.holds

def System.owed (s : System ι) : List ι := s.holder.toList.filter fun p => (s.procs p).pending

section Invariant
variable (calls : ι → Call) (file : Option Str)

def Stage (s : System ι) (trace : List (Event ι)) (p : ι) : Process → Prop
  | .expiry ip ttl =>
    calls p = .ban ip ttl ∧ ¬(ip = [] ∨ ttl = []) ∧ isInteger ttl = true ∧ p ∉ locks trace
  | .lock edit => edit.Of (calls p) ∧ p ∉ locks trace
  | .look task => task.Of (calls p)
  | .clock task | .read task _ => task.Of (calls p) ∧ s.file ≠ none
  | .write edit now entries => edit.Of (calls p) ∧ entries = activeEntries now s.file
  | .rename edit now => edit.Of (calls p) ∧ s.temps p = some (edit.written (activeEntries now s.file))
  | .exiting _ exit | .exited exit => Answered calls file trace p exit

structure Sound (s : System ι) (trace : List (Event ι)) : Prop where
  holder : ∀ p, s.holder = some p ↔ (s.procs p).holds = true
  current : s.file = content calls file (updates trace)
  order : locks trace = (updates trace).map Prod.fst ++ s.owed
  once : (locks trace).Nodup
  stage : ∀ p, Stage calls file s trace p (s.procs p)

structure Moved [DecidableEq ι] (s s' : System ι) (p : ι) (proc : Process) : Prop where
  procs : s'.procs = Function.update s.procs p proc
  temps : ∀ q ≠ p, s'.temps q = s.temps q
  file : s'.file = s.file ∨ s'.file ≠ none ∧ (s.procs p).holds = true

end Invariant

section Steps
variable {calls : ι → Call} {file : Option Str} {s s' : System ι} {trace events : List (Event ι)} {p q : ι}
  {proc : Process}

@[simp] theorem locks_nil : locks ([] : List (Event ι)) = [] := rfl
@[simp] theorem updates_nil : updates ([] : List (Event ι)) = [] := rfl
@[simp] theorem locks_locked : locks [.locked p] = [p] := rfl
@[simp] theorem updates_locked : updates [.locked p] = [] := rfl
@[simp] theorem locks_replaced (first now : Nat) : locks [.replaced p first now] = [] := rfl
@[simp] theorem updates_replaced (first now : Nat) : updates [.replaced p first now] = [(p,first,now)] := rfl

@[simp] theorem locks_append (first second : List (Event ι)) : locks (first ++ second) = locks first ++ locks second :=
  List.filterMap_append

@[simp] theorem updates_append (first second : List (Event ι)) :
    updates (first ++ second) = updates first ++ updates second :=
  List.filterMap_append

theorem Answered.follows {exit : Exit} (answered : Answered calls file trace p exit) (free : p ∉ locks events) :
    Answered calls file (trace ++ events) p exit := by
  rcases answered with ⟨before,first,now,after,same,told⟩ | ⟨unlocked,refused⟩
  · exact Or.inl ⟨before,first,now,after ++ events,by simp [same],told⟩
  · exact Or.inr ⟨by simp [unlocked,free],refused⟩

theorem launch_stage (calls : ι → Call) (file : Option Str) (s : System ι) (p : ι) :
    Stage calls file s [] p (launch (calls p)) := by
  have refused {exit : Exit} (same : ∀ first now file,
      (calls p).run first now file = ⟨exit.status,exit.out,exit.err,file⟩) : Answered calls file [] p exit :=
    Or.inr ⟨List.not_mem_nil,same⟩
  cases call : calls p with
  | ban ip ttl =>
    rw [launch]
    split_ifs with missing integer
    · exact refused fun first now file => by simp [call,Call.run,Banlist.ban,missing]
    · exact refused fun first now file => by simp [call,Call.run,Banlist.ban,missing,integer]
    · exact ⟨call,missing,by simpa using integer,List.not_mem_nil⟩
  | unban ip =>
    rw [launch]
    split_ifs with missing
    · exact refused fun first now file => by simp [call,Call.run,Banlist.unban,missing]
    · exact ⟨⟨call,missing⟩,List.not_mem_nil⟩
  | check ip =>
    rw [launch]
    split_ifs with missing
    · exact refused fun first now file => by simp [call,Call.run,Banlist.check,missing]
    · exact ⟨call,missing⟩
  | list => exact call

theorem initial_sound (calls : ι → Call) (file : Option Str) : Sound calls file (initial calls file) [] where
  holder p := by
    have unheld : (launch (calls p)).holds = false := by
      cases calls p <;> simp only [launch] <;> (repeat' split) <;> rfl
    simp [initial,unheld]
  current := rfl
  order := rfl
  once := List.nodup_nil
  stage p := launch_stage calls file _ p

variable [DecidableEq ι]

theorem Stage.follows (moved : Moved s s' p proc) (apart : (s.procs q).holds = true → (s.procs p).holds = false)
    (other : q ≠ p) (free : q ∉ locks events) (stage : Stage calls file s trace q (s.procs q)) :
    Stage calls file s' (trace ++ events) q (s'.procs q) := by
  have same : s'.procs q = s.procs q := by rw [moved.procs,Function.update_of_ne other]
  have kept (holds : (s.procs q).holds = true) : s'.file = s.file := by
    rcases moved.file with same | ⟨_,held⟩
    · exact same
    · simp [apart holds] at held
  have present (some : s.file ≠ none) : s'.file ≠ none := by
    rcases moved.file with same | ⟨some,_⟩
    · rwa [same]
    · exact some
  rw [same]
  cases at_ : s.procs q with
  | expiry ip ttl =>
    rw [at_] at stage
    obtain ⟨own,given,integer,unlocked⟩ := stage
    exact ⟨own,given,integer,by simp [unlocked,free]⟩
  | lock edit =>
    rw [at_] at stage
    exact ⟨stage.1,by simp [stage.2,free]⟩
  | look task => rwa [at_] at stage
  | clock task =>
    rw [at_] at stage
    exact ⟨stage.1,present stage.2⟩
  | read task now =>
    rw [at_] at stage
    exact ⟨stage.1,present stage.2⟩
  | write edit now entries =>
    rw [at_] at stage
    exact ⟨stage.1,by rw [kept (by rw [at_]; rfl)]; exact stage.2⟩
  | rename edit now =>
    rw [at_] at stage
    exact ⟨stage.1,by rw [moved.temps q other,kept (by rw [at_]; rfl)]; exact stage.2⟩
  | exiting locked exit =>
    rw [at_] at stage
    exact Answered.follows stage free
  | exited exit =>
    rw [at_] at stage
    exact Answered.follows stage free

theorem Sound.stages (sound : Sound calls file s trace) (moved : Moved s s' p proc)
    (free : ∀ q ≠ p, q ∉ locks events) (stage : Stage calls file s' (trace ++ events) p proc) :
    ∀ q, Stage calls file s' (trace ++ events) q (s'.procs q) := by
  intro q
  by_cases own : q = p
  · subst own
    rw [moved.procs,Function.update_self]
    exact stage
  · refine (sound.stage q).follows moved ?_ own (free q own)
    intro holds
    refine eq_false_of_ne_true fun also => own ?_
    exact Option.some.inj (((sound.holder q).mpr holds).symm.trans ((sound.holder p).mpr also))

/-- A step that neither takes the lock nor leaves it, and leaves the banlist. -/
theorem Sound.keeps (sound : Sound calls file s trace) (moved : Moved s s' p proc) (holder : s'.holder = s.holder)
    (same : s'.file = s.file) (holds : proc.holds = (s.procs p).holds) (pending : proc.pending = (s.procs p).pending)
    (unlocked : locks events = []) (unreplaced : updates events = [])
    (stage : Stage calls file s' (trace ++ events) p proc) : Sound calls file s' (trace ++ events) where
  holder q := by
    rw [holder,sound.holder,moved.procs]
    by_cases own : q = p
    · subst own
      rw [Function.update_self,holds]
    · rw [Function.update_of_ne own]
  current := by rw [same,updates_append,unreplaced,List.append_nil,sound.current]
  order := by
    have owed : s'.owed = s.owed := by
      rw [System.owed,System.owed,holder,moved.procs]
      refine List.filter_congr fun q _ => ?_
      by_cases own : q = p
      · subst own
        rw [Function.update_self,pending]
      · rw [Function.update_of_ne own]
    rw [locks_append,updates_append,unlocked,unreplaced,List.append_nil,List.append_nil,owed,sound.order]
  once := by
    rw [locks_append,unlocked,List.append_nil]
    exact sound.once
  stage := sound.stages moved (fun q _ => by simp [unlocked]) stage

theorem become_moved (s : System ι) (p : ι) (proc : Process) : Moved s (s.become p proc) p proc :=
  ⟨rfl,fun _ _ => rfl,Or.inl rfl⟩

/-- What `active_entries` prints of the banlist as it stands. -/
theorem Sound.proceeds (sound : Sound calls file s trace) {task : Task} (own : task.Of (calls p)) (now : Nat)
    (holds : (s.procs p).holds = (Process.look task).holds) (pending : (s.procs p).pending = (Process.look task).pending) :
    Sound calls file (s.become p (task.proceed p now (activeEntries now s.file)).1)
      (trace ++ (task.proceed p now (activeEntries now s.file)).2) := by
  have answered {call : Call} (same : calls p = call) (mark : call.mark p 0 now = .seen p now) :
      ∃ before first now' after, trace ++ [.seen p now] = before ++ (calls p).mark p first now'::after ∧
        exitOf (call.run 0 now s.file) = exitOf ((calls p).run first now' (content calls file (updates before))) :=
    ⟨trace,0,now,[],by rw [same,mark],by rw [same,← sound.current]⟩
  cases task with
  | edit work => exact sound.keeps (become_moved _ _ _) rfl rfl holds.symm pending.symm rfl rfl ⟨own,rfl⟩
  | check ip =>
    refine sound.keeps (become_moved _ _ _) rfl rfl holds.symm pending.symm rfl rfl (Or.inl ?_)
    rw [← check_found own.2]
    exact answered own.1 rfl
  | list => exact sound.keeps (become_moved _ _ _) rfl rfl holds.symm pending.symm rfl rfl (Or.inl (answered own rfl))

/-- A process that takes the lock owes a change of the banlist, and no other does. -/
theorem Sound.takes (sound : Sound calls file s trace) {edit : Edit} (at_ : s.procs p = .lock edit) (idle : s.holder = none) :
    Sound calls file {s.become p (.look (.edit edit)) with holder := some p} (trace ++ [.locked p]) := by
  have stage := sound.stage p
  rw [at_] at stage
  obtain ⟨own,unlocked⟩ := stage
  have alone (q : ι) : (s.procs q).holds ≠ true := fun holds => by simpa [idle] using (sound.holder q).mpr holds
  have none : s.owed = [] := by rw [System.owed,idle]; rfl
  refine ⟨fun q => ?_,?_,?_,?_,sound.stages ⟨rfl,fun _ _ => rfl,Or.inl rfl⟩ ?_ own⟩
  · by_cases same : q = p
    · subst same
      simp [System.become,Process.holds]
    · simp [System.become,Function.update_of_ne same,alone q,Ne.symm same]
  · rw [updates_append,updates_locked,List.append_nil]
    exact sound.current
  · have owed : System.owed {s.become p (.look (.edit edit)) with holder := some p} = [p] := by
      simp [System.owed,System.become,Process.pending,Process.holds]
    rw [locks_append,updates_append,owed,sound.order,none]
    simp
  · rw [locks_append,locks_locked]
    simpa using sound.once.concat unlocked
  · intro q other
    simpa using other

/-- The process that has the lock replaces the banlist, and owes no change any more. -/
theorem Sound.replaces (sound : Sound calls file s trace) {edit : Edit} {read : Nat} (at_ : s.procs p = .rename edit read)
    (own : edit.Of (calls p)) : Sound calls file {s.become p (.exiting true edit.announced) with
      file := some (edit.written (activeEntries read s.file)),temps := Function.update s.temps p none}
      (trace ++ [.replaced p edit.first read]) := by
  have holder : s.holder = some p := (sound.holder p).mpr (by rw [at_]; rfl)
  refine ⟨fun q => ?_,?_,?_,?_,sound.stages ⟨rfl,fun q other => Function.update_of_ne other _ _,Or.inr ⟨?_,?_⟩⟩ ?_ ?_⟩
  · change s.holder = some q ↔ _
    rw [sound.holder]
    by_cases same : q = p
    · subst same
      simp [System.become,Process.holds,at_]
    · simp [System.become,Function.update_of_ne same]
  · rw [updates_append,updates_replaced,content_concat,← sound.current,own.run]
  · have before : s.owed = [p] := by simp [System.owed,holder,at_,Process.pending,Process.holds]
    rw [locks_append,updates_append,sound.order,before]
    simp [System.owed,System.become,holder,Process.pending]
  · simpa using sound.once
  · exact Option.some_ne_none _
  · rw [at_]
    rfl
  · intro q other
    simp
  · refine Or.inl ⟨trace,edit.first,read,[],by rw [own.mark],?_⟩
    rw [own.run]
    rfl

/-- The process that has the lock leaves it as it exits. -/
theorem Sound.leaves (sound : Sound calls file s trace) {exit : Exit} (at_ : s.procs p = .exiting true exit) :
    Sound calls file {s.become p (.exited exit) with holder := none} (trace ++ []) := by
  have stage := sound.stage p
  rw [at_] at stage
  have holder : s.holder = some p := (sound.holder p).mpr (by rw [at_]; rfl)
  have before : s.owed = [] := by simp [System.owed,holder,at_,Process.pending]
  refine ⟨fun q => ?_,?_,?_,?_,sound.stages ⟨rfl,fun _ _ => rfl,Or.inl rfl⟩ ?_ ?_⟩
  · by_cases same : q = p
    · subst same
      simp [System.become,Process.holds]
    · have unheld : (s.procs q).holds ≠ true := by
        intro holds
        exact same (Option.some.inj (((sound.holder q).mpr holds).symm.trans holder))
      simp [System.become,Function.update_of_ne same,unheld]
  · rw [List.append_nil]
    exact sound.current
  · have order := sound.order
    rw [before] at order
    rw [locks_append,updates_append,order]
    simp [System.owed]
  · simpa using sound.once
  · intro q other
    simp
  · simpa [Stage] using stage

theorem step_sound (sound : Sound calls file s trace) (input : ι × Nat) :
    Sound calls file (step s input).1 (trace ++ (step s input).2) := by
  obtain ⟨p,now⟩ := input
  have stage := sound.stage p
  have stays : Sound calls file s (trace ++ []) := by simpa using sound
  cases at_ : s.procs p with
  | expiry ip ttl =>
    rw [at_] at stage
    obtain ⟨own,given,integer,unlocked⟩ := stage
    simp only [step,at_]
    cases expires : expiry now ttl with
    | none =>
      refine sound.keeps (become_moved _ _ _) rfl rfl (by rw [at_]; rfl) (by rw [at_]; rfl) rfl rfl
        (Or.inr ⟨by simpa using unlocked,fun first now' file => ?_⟩)
      simp [own,Call.run,Banlist.ban,given,integer,expiry_none expires first]
    | some till =>
      exact sound.keeps (become_moved _ _ _) rfl rfl (by rw [at_]; rfl) (by rw [at_]; rfl) rfl rfl
        ⟨⟨own,given,integer,expires⟩,by simpa using unlocked⟩
  | lock edit =>
    simp only [step,at_]
    split_ifs with free
    · exact sound.takes at_ (Option.isNone_iff_eq_none.mp free)
    · exact stays
  | look task =>
    rw [at_] at stage
    simp only [step,at_]
    cases current : s.file with
    | none =>
      have proceeds := sound.proceeds stage 0 (by rw [at_]) (by rw [at_])
      rwa [current] at proceeds
    | some text =>
      refine sound.keeps (become_moved _ _ _) rfl rfl ?_ ?_ rfl rfl ⟨stage,?_⟩
      · rw [at_]
        cases task <;> rfl
      · rw [at_]
        cases task <;> rfl
      · intro missing
        exact Option.some_ne_none text (current.symm.trans missing)
  | clock task =>
    rw [at_] at stage
    simp only [step,at_]
    refine sound.keeps (become_moved _ _ _) rfl rfl ?_ ?_ rfl rfl stage
    · rw [at_]
      cases task <;> rfl
    · rw [at_]
      cases task <;> rfl
  | read task read =>
    rw [at_] at stage
    obtain ⟨own,present⟩ := stage
    simp only [step,at_]
    cases current : s.file with
    | none => exact absurd current present
    | some text =>
      have proceeds := sound.proceeds own read (by rw [at_]; cases task <;> rfl) (by rw [at_]; cases task <;> rfl)
      rwa [current] at proceeds
  | write edit read entries =>
    rw [at_] at stage
    obtain ⟨own,printed⟩ := stage
    simp only [step,at_]
    refine sound.keeps ⟨rfl,fun q other => Function.update_of_ne other _ _,Or.inl rfl⟩ rfl rfl (by rw [at_]; rfl)
      (by rw [at_]; rfl) rfl rfl ⟨own,?_⟩
    refine (Function.update_self ..).trans ?_
    rw [printed]
    rfl
  | rename edit read =>
    rw [at_] at stage
    obtain ⟨own,written⟩ := stage
    simp only [step,at_,written]
    exact sound.replaces at_ own
  | exiting locked exit =>
    rw [at_] at stage
    simp only [step,at_]
    cases locked with
    | false =>
      refine sound.keeps ⟨rfl,fun _ _ => rfl,Or.inl rfl⟩ rfl rfl (by rw [at_]; rfl) (by rw [at_]; rfl) rfl rfl ?_
      simpa [Stage] using stage
    | true => exact sound.leaves at_
  | exited exit =>
    simp only [step,at_]
    exact stays

/-- A process that has not exited makes its next step, unless another has the lock it waits for. -/
theorem Sound.moves (sound : Sound calls file s trace) (p : ι) (now : Nat) : (∃ exit, s.procs p = .exited exit) ∨
    (∃ edit q, s.procs p = .lock edit ∧ s.holder = some q) ∨ (step s (p,now)).1.procs p ≠ s.procs p := by
  have stage := sound.stage p
  cases at_ : s.procs p with
  | exited exit => exact Or.inl ⟨exit,rfl⟩
  | expiry ip ttl =>
    refine Or.inr (Or.inr ?_)
    cases expires : expiry now ttl <;> simp [step,at_,expires,System.become]
  | lock edit =>
    cases free : s.holder with
    | some q => exact Or.inr (Or.inl ⟨edit,q,rfl,rfl⟩)
    | none => exact Or.inr (Or.inr (by simp [step,at_,free,System.become]))
  | look task =>
    refine Or.inr (Or.inr ?_)
    cases current : s.file with
    | none => cases task <;> simp [step,at_,current,System.become,Task.proceed]
    | some text => simp [step,at_,current,System.become]
  | read task read =>
    refine Or.inr (Or.inr ?_)
    rw [at_] at stage
    obtain ⟨text,current⟩ := Option.ne_none_iff_exists'.mp stage.2
    cases task <;> simp [step,at_,current,System.become,Task.proceed]
  | rename edit read =>
    rw [at_] at stage
    exact Or.inr (Or.inr (by simp [step,at_,stage.2,System.become]))
  | clock _ | write _ _ _ | exiting _ _ => exact Or.inr (Or.inr (by simp [step,at_,System.become]))

theorem run_sound (calls : ι → Call) (file : Option Str) (inputs : List (ι × Nat)) :
    Sound calls file (run step (initial calls file) inputs).1 (run step (initial calls file) inputs).2 :=
  invariant (P := fun _ s trace => Sound calls file s trace) (initial_sound calls file)
    (fun _ _ _ input sound => step_sound sound input) inputs

end Steps

/-- Whatever the processes do, in whatever order: the banlist is that of the commands one
at a time, each once and in the order of the lock, and every process has answered from the
banlist as it stood between two of them. -/
theorem processes_serial {ι : Type} [DecidableEq ι] (calls : ι → Call) (file : Option Str) (inputs : List (ι × Nat)) :
    let ended := run step (initial calls file) inputs
    ended.1.file = content calls file (updates ended.2) ∧ (locks ended.2).Nodup ∧
      ((∀ p ∈ locks ended.2, ∃ exit, ended.1.procs p = .exited exit) →
        (updates ended.2).map Prod.fst = locks ended.2) ∧
      ∀ p exit, ended.1.procs p = .exited exit → Answered calls file ended.2 p exit := by
  intro ended
  have sound : Sound calls file ended.1 ended.2 := run_sound calls file inputs
  refine ⟨sound.current,sound.once,fun settled => ?_,fun p exit exited => ?_⟩
  · have none : ended.1.owed = [] := by
      rw [System.owed,List.filter_eq_nil_iff]
      intro p holder pending
      have owed : p ∈ ended.1.owed := List.mem_filter.mpr ⟨holder,pending⟩
      obtain ⟨exit,exited⟩ := settled p (by rw [sound.order]; exact List.mem_append_right _ owed)
      rw [exited] at pending
      cases pending
    rw [sound.order,none,List.append_nil]
  · have stage := sound.stage p
    rwa [exited] at stage

def meeting : Nat → Call
  | 0 => .ban (str "10.0.0.7") (str "600")
  | 1 => .unban (str "10.0.0.8")
  | _ => .list

/-- The ban takes the lock, the unban waits for it, and the list goes on between their steps. -/
def schedule : List (Nat × Nat) :=
  [(0,1000),(0,1000),(1,1001),(2,1001),(0,1001),(0,1002),(2,1002),(0,1003),(0,1003),(0,1003),(2,1003),(1,1003),(0,1004),
    (1,1004),(1,1004),(1,1005),(2,1005),(1,1005),(1,1006),(1,1006),(1,1007)]

theorem processes_serial_meeting : let ended := run step (initial meeting (some (str "10.0.0.8 0\n"))) schedule
    (updates ended.2).map Prod.fst = locks ended.2 ∧ locks ended.2 = [0,1] ∧
      ended.1.file = some (str "10.0.0.7 1600\n") ∧
      Answered meeting (some (str "10.0.0.8 0\n")) ended.2 2 ⟨0,str "10.0.0.8 0\n10.0.0.7 1600\n",[]⟩ := by
  obtain ⟨_,_,settled,answers⟩ := processes_serial meeting (some (str "10.0.0.8 0\n")) schedule
  have locked : locks (run step (initial meeting (some (str "10.0.0.8 0\n"))) schedule).2 = [0,1] := by decide +kernel
  refine ⟨settled ?_,locked,by decide +kernel,answers 2 _ (by decide +kernel)⟩
  rw [locked]
  intro p member
  have exits : (run step (initial meeting (some (str "10.0.0.8 0\n"))) schedule).1.procs 0 =
      .exited ⟨0,str "banned 10.0.0.7 until 1600\n",[]⟩ ∧
      (run step (initial meeting (some (str "10.0.0.8 0\n"))) schedule).1.procs 1 =
      .exited ⟨0,str "unbanned 10.0.0.8\n",[]⟩ := by
    decide +kernel
  rcases List.mem_pair.mp member with rfl | rfl
  · exact ⟨_,exits.1⟩
  · exact ⟨_,exits.2⟩

end FipsShield.Banlist.Processes
