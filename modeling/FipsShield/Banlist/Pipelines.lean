import FipsShield.Banlist.Entries

/-! The pipelines that rewrite the banlist (`core/actions/shield-ban`) where any stage of
them can fail: the last stage replaces the file with what has reached it. -/
namespace FipsShield.Banlist.Pipelines
open Text Numeral

/-- How much of its output an awk prints, and its exit status. -/
structure Awk where
  printed : Nat
  status : Nat

/-- What becomes of each stage; the commands of `rewrite` by their exit statuses. -/
structure Stages where
  reader : Awk
  filter : Awk
  mktemp : Nat
  cat : Nat
  chmod : Nat
  mv : Nat

/-- `set -o pipefail`: the last status that is not zero. -/
def pipefail (statuses : List Nat) : Nat := (statuses.reverse.find? (· ≠ 0)).getD 0

/-- `active_entries | awk '$1 != ip'`: its status, and what it prints. -/
def kept (now : Nat) (ip : Str) (stages : Stages) : Option Str → Nat × Str
  | none => (stages.filter.status,[])
  | some text =>
    let entries := (select (active now) text).take stages.reader.printed
    (pipefail [stages.reader.status,stages.filter.status],(without ip entries).take stages.filter.printed)

/-- `rewrite`, which `set -e` leaves at the first command that fails. -/
def rewrite (stages : Stages) (input : Str) (file : Option Str) : Nat × Option Str :=
  if stages.mktemp ≠ 0 then (stages.mktemp,file)
  else if stages.cat ≠ 0 then (stages.cat,file)
  else if stages.chmod ≠ 0 then (stages.chmod,file)
  else if stages.mv ≠ 0 then (stages.mv,file)
  else (0,some input)

/-- The whole pipeline; the group that adds a line is left before its `echo` where the
pipeline before that fails. -/
def edit (now : Nat) (ip added : Str) (stages : Stages) (file : Option Str) : Nat × Option Str :=
  let (status,entries) := kept now ip stages file
  let (rewritten,after) := rewrite stages (if status = 0 then entries ++ added else entries) file
  (pipefail [status,rewritten],after)

def ban (first last : Nat) (ip ttl : Str) (stages : Stages) (file : Option Str) : Outcome :=
  if ip = [] ∨ ttl = [] then ⟨1,[],str "usage: shield-ban ban <ip> <seconds>\n",file⟩
  else if !isInteger ttl then
    ⟨2,[],str "shield-ban: seconds must be an integer, got '" ++ ttl ++ str "'\n",file⟩
  else
    let complaint := if representable (decimalValue ttl) then [] else
      str "[: " ++ ttl ++ str ": integer expression expected\n"
    match expiry first ttl with
    | none => ⟨1,[],complaint ++ ttl ++ str ": value too great for base (error token is \"" ++ ttl ++ str "\")\n",file⟩
    | some till =>
      let (status,after) := edit last ip (ip ++ 0x20 :: intText till ++ str "\n") stages file
      ⟨status,if status = 0 then announce ip (intText till) else [],complaint,after⟩

def unban (now : Nat) (ip : Str) (stages : Stages) (file : Option Str) : Outcome :=
  if ip = [] then ⟨1,[],str "usage: shield-ban unban <ip>\n",file⟩
  else
    let (status,after) := edit now ip [] stages file
    ⟨status,if status = 0 then str "unbanned " ++ ip ++ str "\n" else [],[],after⟩

inductive Change where
  | ban (first last : Nat) (ip ttl : Str)
  | unban (now : Nat) (ip : Str)

def Change.now : Change → Nat
  | .ban _ last _ _ => last
  | .unban now _ => now

def Change.ip : Change → Str
  | .ban _ _ ip _ | .unban _ ip => ip

def Change.run (stages : Stages) (file : Option Str) : Change → Outcome
  | .ban first last ip ttl => Pipelines.ban first last ip ttl stages file
  | .unban now ip => Pipelines.unban now ip stages file

/-- What the command does where no stage fails. -/
def Change.sound (file : Option Str) : Change → Outcome
  | .ban first last ip ttl => Banlist.ban first last ip ttl file
  | .unban now ip => Banlist.unban now ip file

/-! ## No stage fails -/

/-- Every stage succeeds, and the two awks print all they have to. -/
structure Fine (now : Nat) (ip : Str) (stages : Stages) (file : Option Str) : Prop where
  reader : stages.reader.status = 0 ∧ (activeEntries now file).length ≤ stages.reader.printed
  filter : stages.filter.status = 0 ∧ (without ip (activeEntries now file)).length ≤ stages.filter.printed
  replaces : stages.mktemp = 0 ∧ stages.cat = 0 ∧ stages.chmod = 0 ∧ stages.mv = 0

theorem edit_fine {now : Nat} {ip : Str} {stages : Stages} {file : Option Str} (fine : Fine now ip stages file) (added : Str) :
    edit now ip added stages file = (0,some (without ip (activeEntries now file) ++ added)) := by
  obtain ⟨⟨read,reads⟩,⟨filtered,filters⟩,mktemp,cat,chmod,mv⟩ := fine
  have all : kept now ip stages file = (0,without ip (activeEntries now file)) := by
    cases file with
    | none =>
      rw [kept,filtered]
      rfl
    | some text =>
      simp only [activeEntries] at reads filters
      rw [kept,read,filtered,List.take_of_length_le reads,List.take_of_length_le filters]
      rfl
  simp [edit,all,rewrite,mktemp,cat,chmod,mv,pipefail]

theorem run_fine {change : Change} {stages : Stages} {file : Option Str} (fine : Fine change.now change.ip stages file) :
    change.run stages file = change.sound file := by
  cases change with
  | ban first last ip ttl =>
    have edited := edit_fine fine
    simp only [Change.now,Change.ip] at edited
    cases stored : expiry first ttl with
    | none => simp only [Change.run,Change.sound,ban,Banlist.ban,stored]
    | some till => simp [Change.run,Change.sound,ban,Banlist.ban,stored,edited]
  | unban now ip =>
    have edited := edit_fine fine []
    simp only [Change.now,Change.ip] at edited
    simp [Change.run,Change.sound,unban,Banlist.unban,edited]

/-! ## What reaches the file -/

def Ended (text : Str) : Prop := text = [] ∨ text.getLast? = some 0x0A

instance (text : Str) : Decidable (Ended text) := inferInstanceAs (Decidable (_ ∨ _))

/-- What the awks let through is the old text: all its entries are active and of other
addresses, and they print it whole, but for a last newline that the second puts back or that
was not there. -/
def Unharmed (now : Nat) (ip : Str) (stages : Stages) (text : Str) : Prop :=
  (∀ line ∈ Lines.records newline text, active now line = true ∧ equal (column 1 line) ip = false) ∧
    if Ended text then text.length ≤ stages.reader.printed + 1 ∧ text.length ≤ stages.filter.printed
    else text.length ≤ stages.reader.printed ∧ stages.filter.printed = text.length

theorem kept_iff {now : Nat} {ip : Str} {stages : Stages} {text : Str} :
    (kept now ip stages (some text)).2 = text ↔ Unharmed now ip stages text := by
  have blank : active now [] = false := rfl
  have single (u : UInt16) : newline u = true ↔ u = 0x0A := by simp [newline]
  simp only [kept,without,select]
  rw [Lines.take_filters (by decide) blank,Unharmed]
  simp only [Bool.not_eq_true']
  refine and_congr_right fun _ => ?_
  rcases Lines.written_records single text with ⟨ended,whole⟩ | ⟨unended,whole⟩
  · have done : Ended text := ended
    rw [whole,if_pos done,List.take_eq_self_iff]
  · have undone : ¬ Ended text := unended
    rw [whole,if_neg undone,List.length_append,List.length_singleton,Nat.add_le_add_iff_right]
    refine and_congr_right fun _ => ?_
    constructor
    · intro cut
      have sizes := congrArg List.length cut
      rw [List.length_take,List.length_append,List.length_singleton] at sizes
      omega
    · intro exact'
      rw [exact',List.take_left]

/-! ## Failures -/

/-- An awk of the pipeline fails; without a file the first one is not run. -/
def AwkFails (stages : Stages) (file : Option Str) : Prop :=
  file ≠ none ∧ stages.reader.status ≠ 0 ∨ stages.filter.status ≠ 0

def Replaces (stages : Stages) : Prop := stages.mktemp = 0 ∧ stages.cat = 0 ∧ stages.chmod = 0 ∧ stages.mv = 0

/-- An awk fails, nothing after it does, and it leaves something else than the old text. -/
def Loses (now : Nat) (ip : Str) (stages : Stages) (file : Option Str) : Prop :=
  AwkFails stages file ∧ Replaces stages ∧ ∀ text ∈ file, ¬ Unharmed now ip stages text

/-- The command gets as far as its pipeline. -/
def Change.Reaches : Change → Prop
  | .ban first _ ip ttl => ip ≠ [] ∧ isInteger ttl = true ∧ expiry first ttl ≠ none
  | .unban _ ip => ip ≠ []

theorem pipefail_eq_zero (a b : Nat) : pipefail [a,b] = 0 ↔ a = 0 ∧ b = 0 := by
  by_cases first : a = 0 <;> by_cases second : b = 0 <;> simp [pipefail,first,second]

section Edit
variable {now : Nat} {ip : Str} {stages : Stages} {file : Option Str}

theorem kept_status : (kept now ip stages file).1 ≠ 0 ↔ AwkFails stages file := by
  cases file with
  | none => simp [kept,AwkFails]
  | some text => simp [kept,AwkFails,pipefail_eq_zero,← not_and_or]

theorem rewrite_replaces (replaces : Replaces stages) (input : Str) : rewrite stages input file = (0,some input) := by
  obtain ⟨mktemp,cat,chmod,mv⟩ := replaces
  simp [rewrite,mktemp,cat,chmod,mv]

theorem rewrite_fails (fails : ¬ Replaces stages) (input : Str) :
    (rewrite stages input file).1 ≠ 0 ∧ (rewrite stages input file).2 = file := by
  rw [rewrite]
  split_ifs with mktemp cat chmod mv
  · exact ⟨mktemp,rfl⟩
  · exact ⟨cat,rfl⟩
  · exact ⟨chmod,rfl⟩
  · exact ⟨mv,rfl⟩
  · exact absurd ⟨not_not.mp mktemp,not_not.mp cat,not_not.mp chmod,not_not.mp mv⟩ fails

theorem kept_unharmed : some (kept now ip stages file).2 = file ↔ ∃ text ∈ file, Unharmed now ip stages text := by
  cases file with
  | none => simp
  | some text => simp [← kept_iff]

theorem edit_keeps_iff (added : Str) :
    ((edit now ip added stages file).1 ≠ 0 → (edit now ip added stages file).2 = file) ↔ ¬ Loses now ip stages file := by
  simp only [edit]
  by_cases replaces : Replaces stages
  · rw [rewrite_replaces replaces]
    by_cases fails : AwkFails stages file
    · have failed := (@kept_status now ip stages file).mpr fails
      rw [if_neg failed]
      have exits : pipefail [(kept now ip stages file).1,0] ≠ 0 := fun zero => failed ((pipefail_eq_zero _ _).mp zero).1
      rw [forall_prop_of_true exits,kept_unharmed,Loses,and_iff_right fails,and_iff_right replaces]
      push Not
      rfl
    · have passed := not_not.mp (mt kept_status.mp fails : ¬ (kept now ip stages file).1 ≠ 0)
      refine iff_of_true (fun failed => absurd ?_ failed) fun loses => fails loses.1
      rw [passed]
      rfl
  · refine iff_of_true (fun _ => (rewrite_fails replaces _).2) fun loses => replaces loses.2.1

end Edit

/-- A command that fails leaves the banlist as it was, unless one of its awks fails, the file
is replaced all the same, and what came through is not what was in it. -/
theorem run_keeps_iff (change : Change) (stages : Stages) (file : Option Str) :
    ((change.run stages file).status ≠ 0 → (change.run stages file).file = file) ↔
      ¬ (change.Reaches ∧ Loses change.now change.ip stages file) := by
  by_cases reaches : change.Reaches
  · rw [and_iff_right reaches]
    cases change with
    | ban first last ip ttl =>
      obtain ⟨given,integer,sum⟩ := reaches
      obtain ⟨till,stored⟩ := Option.ne_none_iff_exists'.mp sum
      have filled : ttl ≠ [] := by
        rintro rfl
        cases integer
      have missing : ¬ (ip = [] ∨ ttl = []) := not_or.mpr ⟨given,filled⟩
      simp only [Change.run,ban,if_neg missing,integer,stored]
      exact edit_keeps_iff _
    | unban now ip =>
      have given : ip ≠ [] := reaches
      simp only [Change.run,unban,if_neg given]
      exact edit_keeps_iff []
  · refine iff_of_true (fun _ => ?_) fun loses => reaches loses.1
    cases change with
    | ban first last ip ttl =>
      by_cases missing : ip = [] ∨ ttl = []
      · simp only [Change.run,ban,if_pos missing]
      · by_cases integer : isInteger ttl = true
        · have error : expiry first ttl = none := by
            by_contra sum
            exact reaches ⟨(not_or.mp missing).1,integer,sum⟩
          simp only [Change.run,ban,if_neg missing,integer,error]
          rfl
        · simp only [Change.run,ban,if_neg missing,integer]
          rfl
    | unban now ip =>
      have missing : ip = [] := not_not.mp reaches
      simp only [Change.run,unban,if_pos missing]

/-- The reading of the file breaks off after its first line, and the rest of it is lost. -/
theorem run_keeps_broken : ¬ ∀ (change : Change) (stages : Stages) (file : Option Str),
    (change.run stages file).status ≠ 0 → (change.run stages file).file = file := by
  intro claim
  have kept := claim (.unban 10 (str "fd97::7")) ⟨⟨10,2⟩,⟨10,0⟩,0,0,0,0⟩ (some (str "fd97::8 0\nfd97::9 0\n"))
  revert kept
  decide +kernel

end FipsShield.Banlist.Pipelines
