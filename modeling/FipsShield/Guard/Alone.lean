import FipsShield.Guard.Processes

/-! A process that nobody interferes with does, one map operation after the other, what
its command does. -/
namespace FipsShield.Guard

variable (capacity : Nat) (mono epoch : UInt64) (p : Nat)

/-- The map and the process after operations without a fault, by the keys the kernel gives. -/
def alone (nexts : List (Option Addr6)) (bans : Bans) (proc : Process) : Bans × Process :=
  nexts.foldl (fun s next =>
    let done := operate capacity mono epoch p next false s.1 s.2
    (done.1,done.2.1)) (bans,proc)

/-- Some number of operations leads from one to the other. -/
def Becomes (s t : Bans × Process) : Prop := ∃ nexts, alone capacity mono epoch p nexts s.1 s.2 = t

variable {capacity mono epoch p} {bans : Bans} {proc : Process} {s t u : Bans × Process}

theorem Becomes.refl : Becomes capacity mono epoch p s s := ⟨[],rfl⟩

theorem Becomes.trans (one : Becomes capacity mono epoch p s t) (two : Becomes capacity mono epoch p t u) :
    Becomes capacity mono epoch p s u := by
  obtain ⟨first,rfl⟩ := one
  obtain ⟨second,rfl⟩ := two
  exact ⟨first ++ second,by simp [alone]⟩

theorem Becomes.next (key : Option Addr6)
    (rest : Becomes capacity mono epoch p ((operate capacity mono epoch p key false bans proc).1,
      (operate capacity mono epoch p key false bans proc).2.1) t) : Becomes capacity mono epoch p (bans,proc) t := by
  obtain ⟨nexts,rfl⟩ := rest
  exact ⟨key::nexts,rfl⟩

theorem erase_absent {key : Addr6} (absent : key ∉ bans) : bans.erase key = bans := by
  apply AList.ext
  exact List.kerase_of_notMem_keys absent

theorem entry_found {key : Addr6} {v : BanVal} (member : ⟨key,v⟩ ∈ bans.entries) :
    key ∈ bans ∧ bans.lookup key = some v := by
  have found : bans.lookup key = some v := AList.mem_lookup_iff.mpr member
  exact ⟨AList.lookup_isSome.mp (by rw [found]; rfl),found⟩

/-! ## Sweeps -/

/-- A loop that looks each entry up and notes some of them notes those that it should. -/
theorem looks {α : Type} (state : List α → Process) (noted : (_ : Addr6) × BanVal → Bool)
    (note : (_ : Addr6) × BanVal → α)
    (look : ∀ entry ∈ bans.entries, ∀ found, Becomes capacity mono epoch p (bans,state found)
      (bans,state (if noted entry then found ++ [note entry] else found)))
    {entries : List ((_ : Addr6) × BanVal)} (known : ∀ entry ∈ entries, entry ∈ bans.entries) :
    ∀ found, Becomes capacity mono epoch p (bans,state found) (bans,state (found ++ (entries.filter noted).map note)) := by
  induction entries with
  | nil =>
    intro found
    rw [List.filter_nil,List.map_nil,List.append_nil]
    exact Becomes.refl
  | cons entry rest ih =>
    intro found
    have first := look entry (known entry (by simp)) found
    have later := ih fun other member => known other (by simp [member])
    rw [List.filter_cons]
    split_ifs at first ⊢ with own
    · have more := first.trans (later (found ++ [note entry]))
      rwa [List.append_assoc,List.singleton_append] at more
    · exact first.trans (later found)

theorem sweep_looks (sweep : Sweep) (now : UInt64) (found : List Addr6) : Becomes capacity mono epoch p
    (bans,.sweepNext sweep now found) (bans,.sweepNext sweep now (found ++ expired now bans)) := by
  refine looks (Process.sweepNext sweep now) _ _ (fun entry member found => ?_) (fun _ member => member) found
  obtain ⟨here,value⟩ := entry_found member
  apply Becomes.next (some entry.1)
  simp only [operate,if_pos here,Bool.false_eq_true,if_false]
  apply Becomes.next none
  simp only [operate,value,Bool.false_eq_true,if_false]
  split_ifs <;> exact Becomes.refl

theorem sweep_removes (sweep : Sweep) (keys : List Addr6) : ∀ bans, Becomes capacity mono epoch p
    (bans,.sweepRemove sweep keys) (remove bans keys,swept sweep) := by
  induction keys with
  | nil => exact fun _ => Becomes.next none Becomes.refl
  | cons key rest ih =>
    intro bans
    apply Becomes.next none
    simp only [operate,Bool.false_eq_true,false_or]
    split_ifs with here
    · exact ih (bans.erase key)
    · have same : remove bans (key::rest) = remove bans rest := by
        rw [remove,List.foldl_cons,erase_absent here,← remove]
      rw [same]
      exact ih bans

theorem sweep_prunes (sweep : Sweep) :
    Becomes capacity mono epoch p (bans,.sweepClock sweep) ((pruneExpired mono bans).2,swept sweep) := by
  apply Becomes.next none
  refine (sweep_looks sweep mono []).trans ?_
  apply Becomes.next none
  simp only [operate,Bool.false_eq_true,if_false]
  exact sweep_removes sweep _ bans

/-! ## Commands -/

theorem list_looks (now : UInt64) (shown : List (Addr6 × UInt64)) : Becomes capacity mono epoch p
    (bans,.listNext now shown) (bans,.listNext now (shown ++ active now bans)) := by
  refine looks (Process.listNext now) _ _ (fun entry member shown => ?_) (fun _ member => member) shown
  obtain ⟨here,value⟩ := entry_found member
  apply Becomes.next (some entry.1)
  simp only [operate,if_pos here,Bool.false_eq_true,if_false]
  apply Becomes.next none
  simp only [operate,value,Bool.false_eq_true,if_false]
  split_ifs <;> exact Becomes.refl

theorem stats_looks {entries : List ((_ : Addr6) × BanVal)} (known : ∀ entry ∈ entries, entry ∈ bans.entries) :
    ∀ total, Becomes capacity mono epoch p (bans,.statsNext total) (bans,.statsNext (total + entries.length)) := by
  induction entries with
  | nil => exact fun _ => Becomes.refl
  | cons entry rest ih =>
    intro total
    have here := (entry_found (known entry (by simp))).1
    have later := ih fun other member => known other (by simp [member])
    apply Becomes.next (some entry.1)
    simp only [operate,if_pos here,Bool.false_eq_true,if_false]
    apply Becomes.next none
    simp only [operate,here,or_true,if_true,List.length_cons]
    rw [Nat.add_comm rest.length,← Nat.add_assoc]
    exact later (total + 1)

variable (capacity mono epoch p bans)

/-- A `ban` alone leaves the map of `cmd_ban`, and succeeds where that does. -/
theorem ban_alone (ip : Option IpAddr) (seconds : Int64) : Becomes capacity mono epoch p
    (bans,launch (.ban ip seconds)) ((cmdBan capacity mono epoch mono ip seconds bans).2,
      .exited (cmdBan capacity mono epoch mono ip seconds bans).1.isOk) := by
  cases parsed : parseV6 ip with
  | error e =>
    simp only [launch,launch.onAddress,cmdBan,parsed]
    exact Becomes.refl
  | ok address =>
    cases address with
    | none =>
      simp only [launch,launch.onAddress,cmdBan,parsed]
      exact Becomes.refl
    | some key =>
      simp only [launch,launch.onAddress,cmdBan,parsed]
      apply Becomes.next none
      apply Becomes.next none
      simp only [operate,Bool.false_eq_true,if_false]
      cases first : insertBan capacity bans key (banVal seconds mono epoch) with
      | some after => exact Becomes.refl
      | none =>
        refine (sweep_prunes (.ban key (banVal seconds mono epoch))).trans ?_
        apply Becomes.next none
        simp only [swept,operate,Bool.false_eq_true,if_false]
        cases insertBan capacity (pruneExpired mono bans).2 key (banVal seconds mono epoch) <;> exact Becomes.refl

theorem unban_alone (ip : Option IpAddr) : Becomes capacity mono epoch p (bans,launch (.unban ip))
    ((cmdUnban ip bans).2,.exited (cmdUnban ip bans).1.isOk) := by
  cases parsed : parseV6 ip with
  | error e =>
    simp only [launch,launch.onAddress,cmdUnban,parsed]
    exact Becomes.refl
  | ok address =>
    cases address with
    | none =>
      simp only [launch,launch.onAddress,cmdUnban,parsed]
      exact Becomes.refl
    | some key =>
      have gone : (bans.erase key).lookup key = none := AList.lookup_erase _ _
      simp only [launch,launch.onAddress,cmdUnban,parsed,gone]
      apply Becomes.next none
      apply Becomes.next none
      by_cases here : key ∈ bans
      · simp only [operate,here,not_true_eq_false,Bool.false_eq_true,or_self,if_false]
        apply Becomes.next none
        simp only [operate,gone]
        exact Becomes.refl
      · have absent : bans.lookup key = none := AList.lookup_eq_none.mpr here
        simp only [operate,here,absent,not_false_eq_true,or_true,if_true,Option.isSome_none,Bool.and_false,
          Bool.false_eq_true,if_false]
        apply Becomes.next none
        simp only [operate,absent,erase_absent here]
        exact Becomes.refl

theorem check_alone (ip : Option IpAddr) : Becomes capacity mono epoch p (bans,launch (.check ip))
    ((cmdCheck mono ip bans).2,.exited ((cmdCheck mono ip bans).1.toOption.getD false)) := by
  cases parsed : parseV6 ip with
  | error e =>
    simp only [launch,launch.onAddress,cmdCheck,parsed]
    exact Becomes.refl
  | ok address =>
    cases address with
    | none =>
      simp only [launch,launch.onAddress,cmdCheck,parsed]
      exact Becomes.refl
    | some key =>
      simp only [launch,launch.onAddress,cmdCheck,parsed]
      apply Becomes.next none
      cases found : bans.lookup key with
      | none =>
        simp only [operate,found,Bool.false_eq_true,if_false]
        exact Becomes.refl
      | some v =>
        have here : key ∈ bans := AList.lookup_isSome.mp (by rw [found]; rfl)
        simp only [operate,found,Bool.false_eq_true,if_false]
        by_cases permanent : v.expiresMonoNs == 0
        · simp only [permanent,if_true,Bool.true_or]
          exact Becomes.refl
        · simp only [permanent,Bool.false_eq_true,if_false,Bool.false_or]
          apply Becomes.next none
          by_cases stands : v.expiresMonoNs > mono
          · simp only [operate,stands,decide_true,if_true]
            exact Becomes.refl
          · simp only [operate,stands,decide_false,Bool.false_eq_true,if_false]
            apply Becomes.next none
            simp only [operate,here,not_true_eq_false,Bool.false_eq_true,or_self,if_false]
            exact Becomes.refl

theorem list_alone : Becomes capacity mono epoch p (bans,launch .list) ((cmdList mono mono bans).2,.exited true) := by
  refine (sweep_prunes .list).trans ?_
  apply Becomes.next none
  refine (list_looks mono []).trans ?_
  exact Becomes.next none Becomes.refl

theorem stats_alone (counters : Slot → UInt64) (config : Config) : Becomes capacity mono epoch p (bans,launch .stats)
    ((cmdStats capacity counters config mono bans).2,.exited true) := by
  refine (stats_looks (fun _ member => member) 0).trans ?_
  apply Becomes.next none
  exact sweep_prunes (.stats _)

end FipsShield.Guard
