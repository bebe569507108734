import FipsShield.Guard.Alone

/-! `unban` where an operation on the map can fail for a reason of its own, which `get` and
`remove` report no differently from a missing key. -/
namespace FipsShield.Guard

inductive MapError where
  | keyNotFound
  | syscall (errno : Nat)
  deriving DecidableEq

/-- The errno of an operation that fails, which leaves the map as it was. -/
abbrev Fault := Option Nat

def Bans.get (bans : Bans) (fault : Fault) (key : Addr6) : Except MapError BanVal :=
  match fault with
  | some errno => .error (.syscall errno)
  | none =>
    match bans.lookup key with
    | some v => .ok v
    | none => .error .keyNotFound

def Bans.remove (bans : Bans) (fault : Fault) (key : Addr6) : Except MapError Bans :=
  match fault with
  | some errno => .error (.syscall errno)
  | none => if key ∈ bans then .ok (bans.erase key) else .error .keyNotFound

inductive UnbanFailure where
  | failed (failure : Failure)
  | notRemoved (e : MapError)
  deriving DecidableEq

/-- The faults of the look-up, of the removal and of the look-up that reads back. -/
structure UnbanFaults where
  looked : Fault
  removed : Fault
  back : Fault

/-- `cmd_unban` with faults; the answer says whether it has seen a ban. -/
def cmdUnbanFaulty (faults : UnbanFaults) (ip : Option IpAddr) (bans : Bans) : Except UnbanFailure Bool × Bans :=
  match parseV6 ip with
  | .error e => (.error (.failed e),bans)
  | .ok none => (.ok false,bans)
  | .ok (some key) =>
    let wasBanned := (bans.get faults.looked key).isOk
    match bans.remove faults.removed key with
    | .error e => if wasBanned then (.error (.notRemoved e),bans) else readBack key wasBanned bans
    | .ok bans => readBack key wasBanned bans
where
  readBack (key : Addr6) (wasBanned : Bool) (bans : Bans) : Except UnbanFailure Bool × Bans :=
    if (bans.get faults.back key).isOk then (.error (.failed .notTaken),bans) else (.ok wasBanned,bans)

section Operations
variable {bans : Bans} {fault : Fault} {key : Addr6}

theorem get_isOk : (bans.get fault key).isOk = (fault.isNone && (bans.lookup key).isSome) := by
  cases fault with
  | some errno => rfl
  | none =>
    rw [Bans.get]
    cases bans.lookup key <;> rfl

theorem remove_eq : bans.remove fault key = if fault = none ∧ key ∈ bans then .ok (bans.erase key)
    else .error (match fault with | some errno => .syscall errno | none => .keyNotFound) := by
  cases fault with
  | some errno => simp [Bans.remove]
  | none => simp [Bans.remove]

end Operations

/-- Without faults it is the command as it runs on a map that does what it is told. -/
theorem cmdUnbanFaulty_none (ip : Option IpAddr) (bans : Bans) : cmdUnbanFaulty ⟨none,none,none⟩ ip bans =
    ((cmdUnban ip bans).1.mapError .failed,(cmdUnban ip bans).2) := by
  cases parsed : parseV6 ip with
  | error e => simp [cmdUnbanFaulty,cmdUnban,parsed,Except.mapError]
  | ok address =>
    cases address with
    | none => simp [cmdUnbanFaulty,cmdUnban,parsed,Except.mapError]
    | some key =>
      by_cases present : key ∈ bans
      · simp [cmdUnbanFaulty,cmdUnbanFaulty.readBack,cmdUnban,parsed,remove_eq,get_isOk,present,Except.mapError]
      · have absent : bans.lookup key = none := AList.lookup_eq_none.mpr present
        simp [cmdUnbanFaulty,cmdUnbanFaulty.readBack,cmdUnban,parsed,remove_eq,get_isOk,present,absent,
          erase_absent present,Except.mapError]

section Alone
variable (capacity : Nat) (mono epoch : UInt64) (p : Nat)

/-- A process makes its next operations, with these faults and no key to go on to. -/
def operateFaulty (faults : List Fault) (bans : Bans) (proc : Process) : Bans × Process :=
  faults.foldl (fun s fault =>
    let done := operate capacity mono epoch p none fault.isSome s.1 s.2
    (done.1,done.2.1)) (bans,proc)

/-- A process that unbans makes these three operations, and exits as the command does. -/
theorem unban_operates (faults : UnbanFaults) (ip : Option IpAddr) (bans : Bans) :
    operateFaulty capacity mono epoch p [faults.looked,faults.removed,faults.back] bans (launch (.unban ip)) =
      ((cmdUnbanFaulty faults ip bans).2,.exited (cmdUnbanFaulty faults ip bans).1.isOk) := by
  obtain ⟨looked,removed,back⟩ := faults
  cases parsed : parseV6 ip with
  | error e =>
    simp only [launch,launch.onAddress,cmdUnbanFaulty,parsed]
    rfl
  | ok address =>
    cases address with
    | none =>
      simp only [launch,launch.onAddress,cmdUnbanFaulty,parsed]
      rfl
    | some key =>
      simp only [operateFaulty,cmdUnbanFaulty,cmdUnbanFaulty.readBack,launch,launch.onAddress,parsed,remove_eq,
        get_isOk,List.foldl_cons,List.foldl_nil,operate]
      by_cases present : key ∈ bans
      · have found : (bans.lookup key).isSome = true := AList.lookup_isSome.mpr present
        cases looked <;> cases removed <;> cases back <;>
          simp [present,found,Except.isOk,Except.toBool]
      · have absent : bans.lookup key = none := AList.lookup_eq_none.mpr present
        simp [present,absent,Except.isOk,Except.toBool]

end Alone

section Unban
variable {bans : Bans} {looked removed back : Fault} {key : Addr6}

theorem cmdUnbanFaulty_removes (present : key ∈ bans) :
    cmdUnbanFaulty ⟨looked,none,back⟩ (some (.v6 key)) bans = (.ok looked.isNone,bans.erase key) := by
  have found : (bans.lookup key).isSome = true := AList.lookup_isSome.mpr present
  simp [cmdUnbanFaulty,cmdUnbanFaulty.readBack,parseV6,remove_eq,get_isOk,present,found]

/-- Where nothing is removed, the two look-ups between them have to miss the entry. -/
theorem cmdUnbanFaulty_keeps (kept : removed.isSome ∨ key ∉ bans) :
    (cmdUnbanFaulty ⟨looked,removed,back⟩ (some (.v6 key)) bans).2 = bans ∧
    ((cmdUnbanFaulty ⟨looked,removed,back⟩ (some (.v6 key)) bans).1.isOk = true ↔
      key ∉ bans ∨ looked.isSome ∧ back.isSome) := by
  have fails : ¬ (removed = none ∧ key ∈ bans) := by
    rintro ⟨rfl,present⟩
    rcases kept with faulty | absent
    · cases faulty
    · exact absent present
  simp only [cmdUnbanFaulty,cmdUnbanFaulty.readBack,parseV6,remove_eq,if_neg fails,get_isOk]
  by_cases present : key ∈ bans
  · have found : (bans.lookup key).isSome = true := AList.lookup_isSome.mpr present
    cases looked <;> cases back <;> simp [present,found,Except.isOk,Except.toBool]
  · have absent : bans.lookup key = none := AList.lookup_eq_none.mpr present
    simp [present,absent,Except.isOk,Except.toBool]

end Unban

/-- After a success the address has no entry, unless it had one and all three operations failed. -/
theorem cmdUnban_absent_iff (faults : UnbanFaults) (key : Addr6) (bans : Bans) :
    let done := cmdUnbanFaulty faults (some (.v6 key)) bans
    (done.1.isOk = true → key ∉ done.2) ↔
      ¬ (key ∈ bans ∧ faults.looked.isSome ∧ faults.removed.isSome ∧ faults.back.isSome) := by
  intro done
  obtain ⟨looked,removed,back⟩ := faults
  by_cases removes : removed = none ∧ key ∈ bans
  · obtain ⟨rfl,present⟩ := removes
    simp only [done,cmdUnbanFaulty_removes present]
    refine iff_of_true (fun _ => ?_) (by simp)
    rw [AList.mem_erase]
    exact fun still => still.1 rfl
  · have kept : removed.isSome ∨ key ∉ bans := by
      rw [not_and] at removes
      cases removed with
      | none => exact Or.inr (removes rfl)
      | some errno => exact Or.inl rfl
    obtain ⟨same,succeeds⟩ := @cmdUnbanFaulty_keeps bans looked removed back key kept
    simp only [done,same,succeeds]
    rcases kept with faulty | absent
    · simp only [faulty,true_and]
      tauto
    · exact iff_of_true (fun _ => absent) fun failed => absent failed.1

/-- All three operations on the ban of an address fail with `ENOMEM`. -/
theorem cmdUnban_present :
    ¬ ∀ (faults : UnbanFaults) (key : Addr6) (bans : Bans),
      (cmdUnbanFaulty faults (some (.v6 key)) bans).1.isOk = true → key ∉ (cmdUnbanFaulty faults (some (.v6 key)) bans).2 := by
  intro claim
  exact claim ⟨some 12,some 12,some 12⟩ node (AList.singleton node ⟨0,0⟩) rfl (by decide)

end FipsShield.Guard
