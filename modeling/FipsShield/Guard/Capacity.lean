import FipsShield.Guard.Commands
import Mathlib.Data.Finset.Card

/-! `ban` on a map of bounded capacity: the sweep before its second attempt reclaims every
entry that has lapsed and no other, so only a map full of standing bans refuses a new one. -/
namespace FipsShield.Guard

/-- That many addresses other than the given one hold bans that stand. -/
def Crowded (capacity : Nat) (bans : Bans) (key : Addr6) (now : UInt64) : Prop :=
  ∃ others : Finset Addr6, others.card = capacity ∧ ∀ src ∈ others, src ≠ key ∧ Banned bans src now

def holders (bans : Bans) : Finset Addr6 := bans.keys.toFinset

theorem mem_holders {bans : Bans} {src : Addr6} : src ∈ holders bans ↔ src ∈ bans := by
  rw [holders,List.mem_toFinset,AList.mem_keys]

theorem card_holders (bans : Bans) : (holders bans).card = bans.entries.length := by
  rw [holders,List.toFinset_card_of_nodup bans.keys_nodup,AList.keys,List.keys,List.length_map]

section Insert
variable {capacity : Nat} {bans : Bans} {key : Addr6} {val : BanVal}

theorem insertBan_none : insertBan capacity bans key val = none ↔ key ∉ bans ∧ capacity ≤ (holders bans).card := by
  rw [insertBan,card_holders]
  split_ifs with room
  · refine iff_of_false (by simp) ?_
    rintro ⟨absent,full⟩
    rcases room with present | below
    · exact absent present
    · omega
  · rw [not_or,Nat.not_lt] at room
    exact iff_of_true rfl room

theorem insertBan_some {after : Bans} (inserted : insertBan capacity bans key val = some after) :
    after.lookup key = some val ∧ ∀ src, src ≠ key → after.lookup src = bans.lookup src := by
  rw [insertBan_eq inserted]
  exact ⟨AList.lookup_insert bans,fun src other => AList.lookup_insert_ne other⟩

end Insert

section Sweep
variable {now : UInt64} {bans : Bans} {src : Addr6}

theorem pruneExpired_lookup : (pruneExpired now bans).2.lookup src =
    if src ∈ expired now bans then none else bans.lookup src := lookup_remove bans (expired now bans) src

theorem pruneExpired_stands {v : BanVal} (found : bans.lookup src = some v) (standing : v.Standing now) :
    (pruneExpired now bans).2.lookup src = some v := by
  have kept : src ∉ expired now bans := by
    intro gone
    obtain ⟨w,other,lapsed⟩ := mem_expired.mp gone
    rw [found] at other
    exact lapsed (Option.some.inj other ▸ standing)
  rw [pruneExpired_lookup,if_neg kept]
  exact found

theorem pruneExpired_holders : src ∈ holders (pruneExpired now bans).2 ↔ Banned bans src now := by
  rw [mem_holders,← AList.lookup_isSome,pruneExpired_lookup]
  constructor
  · intro present
    split_ifs at present with gone
    · cases present
    · obtain ⟨v,found⟩ := Option.isSome_iff_exists.mp present
      refine ⟨v,found,?_⟩
      by_contra lapsed
      exact gone (mem_expired.mpr ⟨v,found,lapsed⟩)
  · rintro ⟨v,found,standing⟩
    rw [← pruneExpired_lookup,pruneExpired_stands found standing]
    rfl

theorem Banned.held (banned : Banned bans src now) : src ∈ holders bans := by
  obtain ⟨v,found,_⟩ := banned
  rw [mem_holders,← AList.lookup_isSome,found]
  rfl

end Sweep

section Ban
variable {capacity : Nat} {bans : Bans} (mono epoch sweep : UInt64) (key : Addr6) (seconds : Int64)

/-- The two attempts fail together exactly where other addresses fill the map with standing bans. -/
theorem attempts_fail (bounded : bans.entries.length ≤ capacity) (val : BanVal) :
    (insertBan capacity bans key val = none ∧ insertBan capacity (pruneExpired sweep bans).2 key val = none) ↔
      Crowded capacity bans key sweep := by
  rw [insertBan_none,insertBan_none]
  constructor
  · rintro ⟨_,absent,full⟩
    obtain ⟨others,within,size⟩ := Finset.exists_subset_card_eq full
    refine ⟨others,size,fun src member => ?_⟩
    have held := within member
    refine ⟨?_,pruneExpired_holders.mp held⟩
    rintro rfl
    exact absent (mem_holders.mp held)
  · rintro ⟨others,size,standing⟩
    have swept : others ⊆ holders (pruneExpired sweep bans).2 := fun src member =>
      pruneExpired_holders.mpr (standing src member).2
    have held : others ⊆ holders bans := fun src member => (standing src member).2.held
    -- The others fill the map, which leaves no room for the address itself.
    have whole : others = holders bans := Finset.eq_of_subset_of_card_le held (by rw [card_holders,size]; exact bounded)
    have absent : key ∉ bans := by
      intro present
      have among : key ∈ others := by
        rw [whole]
        exact mem_holders.mpr present
      exact (standing key among).1 rfl
    refine ⟨⟨absent,size ▸ Finset.card_le_card held⟩,?_,size ▸ Finset.card_le_card swept⟩
    intro present
    exact absent (mem_holders.mp (pruneExpired_holders.mp (mem_holders.mpr present)).held)

/-- What `cmd_ban` has done where it succeeds, and where it fails. -/
theorem cmdBan_cases (ip : Option IpAddr) (parsed : parseV6 ip = .ok (some key)) :
    let val := banVal seconds mono epoch
    let done := cmdBan capacity mono epoch sweep ip seconds bans
    (∃ after, insertBan capacity bans key val = some after ∧ done = (.ok (some val),after)) ∨
    (insertBan capacity bans key val = none ∧ ∃ after,
      insertBan capacity (pruneExpired sweep bans).2 key val = some after ∧ done = (.ok (some val),after)) ∨
    (insertBan capacity bans key val = none ∧ insertBan capacity (pruneExpired sweep bans).2 key val = none ∧
      done = (.error (.notInserted (pruneExpired sweep bans).1),(pruneExpired sweep bans).2)) := by
  intro val done
  simp only [done,cmdBan,parsed]
  cases first : insertBan capacity bans key val with
  | some after => exact Or.inl ⟨after,rfl,rfl⟩
  | none =>
    cases second : insertBan capacity (pruneExpired sweep bans).2 key val with
    | some after => exact Or.inr (Or.inl ⟨rfl,after,rfl,rfl⟩)
    | none => exact Or.inr (Or.inr ⟨rfl,rfl,rfl⟩)

end Ban

/-- A ban is refused only where standing bans of other addresses fill the map. Where it is
made it stands until the requested deadline, and either way no other standing ban changes. -/
theorem cmdBan_capacity (capacity : Nat) (bans : Bans) (bounded : bans.entries.length ≤ capacity)
    (mono epoch sweep : UInt64) (key : Addr6) (seconds : Int64) :
    let done := cmdBan capacity mono epoch sweep (some (.v6 key)) seconds bans
    (done.1.isOk = true ↔ ¬ Crowded capacity bans key sweep) ∧
    (done.1.isOk = true → done.2.lookup key = some (banVal seconds mono epoch) ∧
      ∀ now, Banned done.2 key now ↔
        seconds ≤ 0 ∨ (now.toNat : Int) < min (mono.toNat + seconds.toInt * 1000000000) (2 ^ 64 - 1)) ∧
    ∀ src v, src ≠ key → bans.lookup src = some v → v.Standing sweep → done.2.lookup src = some v := by
  intro done
  have crowded := @attempts_fail capacity bans sweep key bounded (banVal seconds mono epoch)
  have dated {after : Bans} (found : after.lookup key = some (banVal seconds mono epoch)) (now : UInt64) :
      Banned after key now ↔
        seconds ≤ 0 ∨ (now.toNat : Int) < min (mono.toNat + seconds.toInt * 1000000000) (2 ^ 64 - 1) := by
    rw [← banVal_until seconds mono epoch now,Banned,found]
    simp
  rcases @cmdBan_cases capacity bans mono epoch sweep key seconds (some (.v6 key)) rfl with
    ⟨after,first,made⟩ | ⟨first,after,second,made⟩ | ⟨first,second,made⟩
  · obtain ⟨own,others⟩ := insertBan_some first
    simp only [done,made]
    refine ⟨iff_of_true rfl fun full => ?_,fun _ => ⟨own,dated own⟩,fun src v other found _ => ?_⟩
    · rw [(crowded.mpr full).1] at first
      cases first
    · rw [others src other]
      exact found
  · obtain ⟨own,others⟩ := insertBan_some second
    simp only [done,made]
    refine ⟨iff_of_true rfl fun full => ?_,fun _ => ⟨own,dated own⟩,fun src v other found standing => ?_⟩
    · rw [(crowded.mpr full).2] at second
      cases second
    · rw [others src other]
      exact pruneExpired_stands found standing
  · simp only [done,made]
    refine ⟨iff_of_false (by simp [Except.isOk,Except.toBool]) (not_not.mpr (crowded.mp ⟨first,second⟩)),?_,?_⟩
    · intro ok
      cases ok
    · intro src v _ found standing
      exact pruneExpired_stands found standing

/-- The only entry of a full map lapses before the sweep. -/
theorem cmdBan_capacity_one :
    let done := cmdBan 1 5 0 7 (some (.v6 node)) (-1) (AList.singleton ⟨.replicate 16 9⟩ ⟨6,1⟩)
    (done.1.isOk = true ↔ ¬ Crowded 1 (AList.singleton ⟨.replicate 16 9⟩ ⟨6,1⟩) node 7) ∧
    (done.1.isOk = true → done.2.lookup node = some (banVal (-1) 5 0) ∧
      ∀ now, Banned done.2 node now ↔
        (-1 : Int64) ≤ 0 ∨ (now.toNat : Int) < min ((5 : UInt64).toNat + (-1 : Int64).toInt * 1000000000) (2 ^ 64 - 1)) ∧
    ∀ src v, src ≠ node → (AList.singleton ⟨.replicate 16 9⟩ ⟨6,1⟩ : Bans).lookup src = some v → v.Standing 7 →
      done.2.lookup src = some v :=
  cmdBan_capacity 1 (AList.singleton ⟨.replicate 16 9⟩ ⟨6,1⟩) (by decide) 5 0 7 node (-1)

end FipsShield.Guard
