import FipsShield.Banlist.Script
import FipsShield.Library.Expiring
import Mathlib.Data.List.TakeWhile

/-! The entries of the banlist: what one line says, and that each command of the script
is one write of a store whose bans lapse. -/
namespace FipsShield.Banlist
open Text Numeral

/-! ## Addresses -/

def inAddress (u : UInt16) : Bool :=
  isDigit u || (0x41 ≤ u && u ≤ 0x46) || (0x61 ≤ u && u ≤ 0x66) || u == 0x3A || u == 0x2E

/-- The text of an IP address has a colon, or more points than a numeral has. -/
structure Address (ip : Str) : Prop where
  units : ∀ u ∈ ip, inAddress u = true
  separated : 0x3A ∈ ip ∨ 2 ≤ ip.count 0x2E

instance (ip : Str) : Decidable (Address ip) :=
  decidable_of_iff (ip.all inAddress = true ∧ (0x3A ∈ ip ∨ 2 ≤ ip.count 0x2E))
    ⟨fun both => ⟨List.all_eq_true.mp both.1,both.2⟩,
      fun address => ⟨List.all_eq_true.mpr address.units,address.separated⟩⟩

/-- The separators of addresses in a text, colons counted twice. -/
def separators (s : Str) : Nat := 2 * s.count 0x3A + s.count 0x2E

theorem Address.separators {ip : Str} (address : Address ip) : 2 ≤ separators ip := by
  rcases address.separated with colon | points
  · have one := List.count_pos_iff.mpr colon
    rw [Banlist.separators]
    omega
  · rw [Banlist.separators]
    omega

theorem separators_append (a b : Str) : separators (a ++ b) = separators a + separators b := by
  simp only [separators,List.count_append]
  omega

theorem separators_cons {u : UInt16} (colon : u ≠ 0x3A) (point : u ≠ 0x2E) (s : Str) :
    separators (u::s) = separators s := by
  simp [separators,List.count_cons_of_ne colon,List.count_cons_of_ne point]

theorem separators_digits {ds : Str} (digits : ∀ u ∈ ds, isDigit u = true) : separators ds = 0 := by
  have none (v : UInt16) (other : isDigit v = false) : ds.count v = 0 := by
    apply List.count_eq_zero.mpr
    intro member
    rw [digits v member] at other
    contradiction
  rw [separators,none 0x3A (by decide),none 0x2E (by decide)]

theorem separators_whole (s : Str) : separators (s.dropWhile isDigit) = separators s := by
  have split := congrArg separators (List.takeWhile_append_dropWhile (p := isDigit) (l := s))
  rw [separators_append,separators_digits fun u member => List.mem_takeWhile_imp member] at split
  omega

theorem separators_signed (plus : Bool) (s : Str) : separators (signed plus s).2 = separators s := by
  unfold signed
  split
  · next u rest =>
    split_ifs with minus sign
    · rw [minus,separators_cons (by decide) (by decide)]
    · obtain ⟨_,rfl⟩ : plus = true ∧ u = 0x2B := by simpa using sign
      rw [separators_cons (by decide) (by decide)]
    · rfl
  · rfl

theorem separators_fraction (s : Str) : separators s ≤ separators (fractionPart s).2 + 1 := by
  unfold fractionPart
  split
  · next u rest =>
    split_ifs with point
    · rw [separators_whole,point]
      simp only [separators,List.count_cons_self,List.count_cons_of_ne (by decide : (0x2E : UInt16) ≠ 0x3A)]
      omega
    · exact Nat.le_succ _
  · exact Nat.le_succ _

theorem separators_exponent {s rest : Str} {e : Int} (read : exponentPart s = some (e,rest)) :
    separators rest = separators s := by
  unfold exponentPart at read
  split at read
  · next u tail =>
    split_ifs at read with letter
    have sign := separators_signed true tail
    rcases signs : signed true tail with ⟨negative,body⟩
    simp only [signs] at read sign
    split at read
    · contradiction
    · obtain ⟨_,rfl⟩ := Prod.mk.inj (Option.some.inj read)
      have plain : separators (u::tail) = separators tail := by
        rcases letter with rfl | rfl <;> exact separators_cons (by decide) (by decide) tail
      rw [separators_whole,sign,plain]
  · contradiction

/-- A numeral has one point at most, and no colon. -/
theorem looksNumeric_separators {s : Str} (numeric : looksNumeric s = true) : separators s ≤ 1 := by
  simp only [looksNumeric,Bool.and_eq_true,Bool.or_eq_true,decide_eq_true_eq] at numeric
  have signs := separators_signed true s
  have whole := separators_whole (signed true s).2
  have point := separators_fraction ((signed true s).2.dropWhile isDigit)
  rcases numeric.2 with ended | exponent
  · rw [ended] at point
    simp only [separators,List.count_nil] at *
    omega
  · obtain ⟨⟨e,rest⟩,read,ended⟩ := (Option.any_eq_true _ _).mp exponent
    have after := separators_exponent read
    simp only [decide_eq_true_eq] at ended
    rw [ended] at after
    simp only [separators,List.count_nil] at *
    omega

theorem Address.strnum {ip : Str} (address : Address ip) : strnum ip = none := by
  rw [Banlist.strnum,if_neg]
  intro numeric
  have few := looksNumeric_separators numeric
  have many := address.separators
  omega

theorem Address.equal {ip : Str} (address : Address ip) (other : Str) : equal other ip = decide (other = ip) := by
  rw [Banlist.equal,address.strnum]
  cases Banlist.strnum other <;> rfl

theorem Address.ne_nil {ip : Str} (address : Address ip) : ip ≠ [] := by
  rintro rfl
  have none := address.separators
  simp [Banlist.separators] at none

theorem inAddress_not_space {u : UInt16} (inside : inAddress u = true) : isSpace u = false := by
  simp only [inAddress,isDigit,Bool.or_eq_true,Bool.and_eq_true,decide_eq_true_eq,beq_iff_eq,
    UInt16.le_iff_toNat_le,← UInt16.toNat_inj] at inside
  simp only [isSpace,Bool.or_eq_false_iff,Bool.and_eq_false_iff,decide_eq_false_iff_not,beq_eq_false_iff_ne,
    ne_eq,UInt16.le_iff_toNat_le,← UInt16.toNat_inj]
  simp at *
  omega

theorem not_blank {u : UInt16} (plain : isSpace u = false) : blank u = false ∧ newline u = false := by
  constructor
  · apply Bool.eq_false_iff.mpr
    intro gap
    rcases Bool.or_eq_true _ _ ▸ gap with space | tab
    · rw [eq_of_beq space] at plain
      revert plain
      decide
    · rw [eq_of_beq tab] at plain
      revert plain
      decide
  · apply Bool.eq_false_iff.mpr
    intro ended
    rw [eq_of_beq ended] at plain
    revert plain
    decide

/-! ## Entries -/

/-- An address and when its ban ends, 0 for never. -/
abbrev Entry := Str × Nat

/-- `"$ip $until"`. -/
def line (entry : Entry) : Str := entry.1 ++ 0x20 :: natText entry.2

structure Fits (entry : Entry) : Prop where
  address : Address entry.1
  small : entry.2 < 2 ^ 53

def stands (now till : Nat) : Bool := till = 0 || now < till

/-- The file has these entries, a line each. -/
structure Holds (file : Option Str) (entries : List Entry) : Prop where
  text : file.getD [] = Lines.written 0x0A (entries.map line)
  fits : ∀ entry ∈ entries, Fits entry

variable {entry : Entry} {entries : List Entry}

theorem strnum_natText (n : Nat) : strnum (natText n) = some (Number.nearest (n : ℚ)) := by
  have digits := natText_digits n
  have numeric : looksNumeric (natText n) = true := by
    simp [looksNumeric,signed_digits true digits,takeWhile_digits digits,fractionPart,natText_ne_nil]
  rw [strnum,if_pos numeric,parseFloat_natText]

section Line
variable (address : Address entry.1)
include address

theorem Address.plain : (∀ u ∈ entry.1, isSpace u = false) ∧ ∀ u ∈ natText entry.2, isSpace u = false :=
  ⟨fun u member => inAddress_not_space (address.units u member),
    fun u member => digit_not_space (natText_digits _ u member)⟩

theorem fields_line : Lines.fields blank (line entry) = [entry.1,natText entry.2] :=
  Lines.fields_pair (by decide) (fun u member => (not_blank (address.plain.1 u member)).1)
    (fun u member => (not_blank (address.plain.2 u member)).1) address.ne_nil (natText_ne_nil _)

theorem line_one : ∀ u ∈ line entry, newline u = false := by
  intro u member
  rcases List.mem_append.mp member with own | rest
  · exact (not_blank (address.plain.1 u own)).2
  · rcases List.mem_cons.mp rest with rfl | digit
    · decide
    · exact (not_blank (address.plain.2 u digit)).2

@[simp] theorem column_one : column 1 (line entry) = entry.1 := by
  rw [column,fields_line address]
  rfl

@[simp] theorem column_two : column 2 (line entry) = natText entry.2 := by
  rw [column,fields_line address]
  rfl

theorem active_line {now : Nat} (early : now < 2 ^ 53) : active now (line entry) = stands now entry.2 := by
  have zero : strnum (str "0") = some 0 := by decide +kernel
  have permanent : equal (natText entry.2) (str "0") = decide (entry.2 = 0) := by
    rw [equal,strnum_natText,zero]
    exact decide_eq_decide.mpr (nearest_eq_zero entry.2)
  have later : above (natText entry.2) (natText now) = decide (now < entry.2) := by
    rw [above,strnum_natText,strnum_natText,nearest_exact early]
    exact decide_eq_decide.mpr (lt_nearest early entry.2)
  rw [active,fields_line address,column_two address,permanent,later]
  rfl

end Line

theorem records_lines (fits : ∀ entry ∈ entries, Fits entry) :
    Lines.records newline (Lines.written 0x0A (entries.map line)) = entries.map line := by
  apply Lines.records_written (by decide)
  intro text member
  obtain ⟨entry,within,rfl⟩ := List.mem_map.mp member
  exact line_one (fits entry within).address

theorem select_lines {condition : Str → Bool} {keep : Entry → Bool} (fits : ∀ entry ∈ entries, Fits entry)
    (same : ∀ entry ∈ entries, condition (line entry) = keep entry) :
    select condition (Lines.written 0x0A (entries.map line)) =
      Lines.written 0x0A ((entries.filter keep).map line) := by
  rw [select,records_lines fits,List.filter_map]
  congr 2
  exact List.filter_congr same

theorem activeEntries_eq {now : Nat} (early : now < 2 ^ 53) {file : Option Str} (holds : Holds file entries) :
    activeEntries now file = Lines.written 0x0A ((entries.filter fun entry => stands now entry.2).map line) := by
  rw [← select_lines holds.fits fun entry member => active_line (holds.fits entry member).address early,← holds.text]
  cases file <;> rfl

theorem without_eq {ip : Str} (address : Address ip) (fits : ∀ entry ∈ entries, Fits entry) :
    without ip (Lines.written 0x0A (entries.map line)) =
      Lines.written 0x0A ((entries.filter fun entry => entry.1 ≠ ip).map line) := by
  apply select_lines fits
  intro entry member
  rw [column_one (fits entry member).address,address.equal]
  simp

/-! ## The commands -/

theorem decimalValue_intText (n : Int) : decimalValue (intText n) = n := by
  cases n with
  | ofNat n =>
    rw [decimalValue,intText,signed_digits false (natText_digits n)]
    simp [digitsValue_natText]
  | negSucc n =>
    simp only [decimalValue,intText,signed,if_true,digitsValue_natText]
    rfl

theorem isInteger_intText (n : Int) : isInteger (intText n) = true := by
  have digits (n : Nat) : ∀ u ∈ natText n, isDigit u = true ∧ u ≠ 0x2D := by
    intro u member
    have digit := natText_digits n u member
    refine ⟨digit,?_⟩
    rintro rfl
    revert digit
    decide
  cases n with
  | ofNat n =>
    have plain : (natText n ≠ [0x2D]) ∧ 0x2D ∉ (natText n).tail := by
      constructor
      · intro minus
        exact (digits n 0x2D (by simp [minus])).2 rfl
      · intro member
        exact (digits n _ (List.mem_of_mem_tail member)).2 rfl
    have all : ∀ u ∈ natText n, isDigit u = true ∨ u = 0x2D := fun u member => Or.inl (digits n u member).1
    simpa [isInteger,intText,natText_ne_nil,plain] using all
  | negSucc n =>
    have absent : 0x2D ∉ natText (n + 1) := fun member => (digits _ _ member).2 rfl
    have all : ∀ u ∈ natText (n + 1), isDigit u = true ∨ u = 0x2D := fun u member => Or.inl (digits _ u member).1
    simpa [isInteger,intText,natText_ne_nil,absent] using all

theorem wrap_eq {n : Int} (fits : representable n = true) : wrap n = n := by
  simp only [representable,Bool.and_eq_true,decide_eq_true_eq] at fits
  rw [wrap]
  exact Int.bmod_eq_of_le (by omega) (by omega)

/-- What a ban at a second stores. -/
def till (first : Nat) (ttl : Int) : Nat := if ttl ≤ 0 then 0 else first + ttl.toNat

theorem expiry_intText {first : Nat} {ttl : Int} (low : -2 ^ 63 ≤ ttl) (high : first + ttl < 2 ^ 53) :
    expiry first (intText ttl) = some (till first ttl : Int) := by
  rw [expiry,testLe,decimalValue_intText]
  by_cases permanent : ttl ≤ 0
  · have fits : representable ttl = true := by simp [representable]; omega
    simp [fits,permanent,till]
  · obtain ⟨n,rfl⟩ : ∃ n : Nat, ttl = n := ⟨ttl.toNat,by omega⟩
    have positive : 0 < n := by omega
    have fits : representable n = true := by simp [representable]; omega
    have sum : representable (first + n) = true := by simp [representable]; omega
    have value : evaluate (intText n) = some (n : Int) := by
      have text : intText (n : Int) = natText n := rfl
      simp [evaluate,text,signed_digits false (natText_digits n),constant,natText_head positive,
        digitsValue_natText,wrap_eq fits]
    simp [value,wrap_eq sum,till,positive.ne']

variable {file : Option Str}

theorem Holds.kept (holds : Holds file entries) (now : Nat) :
    ∀ entry ∈ entries.filter (fun entry => stands now entry.2), Fits entry :=
  fun entry member => holds.fits entry (List.mem_filter.mp member).1

theorem Holds.written {w : Expiring.Write Str Nat Nat} (early : w.time < 2 ^ 53) (address : Address w.key)
    (small : ∀ v, w.value = some v → v < 2 ^ 53) (holds : Holds file entries) :
    Holds (some (without w.key (activeEntries w.time file) ++
      Lines.written 0x0A (((w.value.map (Prod.mk w.key)).toList).map line))) (Expiring.write stands entries w) := by
  have kept := holds.kept w.time
  constructor
  · rw [Option.getD_some,activeEntries_eq early holds,without_eq address kept,Expiring.write,List.map_append,
      Lines.written,Lines.written,Lines.written,List.flatMap_append]
  · intro entry member
    rcases List.mem_append.mp member with old | new
    · exact kept entry (List.mem_filter.mp old).1
    · obtain ⟨v,value,rfl⟩ : ∃ v, w.value = some v ∧ entry = (w.key,v) := by
        cases given : w.value with
        | none => simp [given] at new
        | some v => exact ⟨v,rfl,by simpa [given] using new⟩
      exact ⟨address,small v value⟩

theorem ban_ran {first : Nat} {ip : Str} {ttl : Int} (address : Address ip) (low : -2 ^ 63 ≤ ttl)
    (high : first + ttl < 2 ^ 53) (last : Nat) (file : Option Str) :
    (ban first last ip (intText ttl) file).status = 0 ∧ (ban first last ip (intText ttl) file).file =
      some (without ip (activeEntries last file) ++ Lines.written 0x0A ([(ip,till first ttl)].map line)) := by
  have integer := isInteger_intText ttl
  have filled : intText ttl ≠ [] := by
    intro empty
    rw [empty] at integer
    revert integer
    decide
  simp only [ban,address.ne_nil,filled,integer,expiry_intText low high]
  simp [Lines.written,line,intText,str,utf16]

theorem ban_holds {first last : Nat} {ip : Str} {ttl : Int} (address : Address ip) (low : -2 ^ 63 ≤ ttl)
    (high : first + ttl < 2 ^ 53) (early : last < 2 ^ 53) (holds : Holds file entries) :
    Holds (ban first last ip (intText ttl) file).file
      (Expiring.write stands entries ⟨ip,some (till first ttl),last⟩) := by
  rw [(ban_ran address low high last file).2]
  have small : till first ttl < 2 ^ 53 := by
    rw [till]
    split_ifs <;> omega
  exact holds.written (w := ⟨ip,some (till first ttl),last⟩) early address fun v value => Option.some.inj value ▸ small

theorem unban_holds {now : Nat} {ip : Str} (address : Address ip) (early : now < 2 ^ 53) (holds : Holds file entries) :
    Holds (unban now ip file).file (Expiring.write stands entries ⟨ip,none,now⟩) := by
  have after : (unban now ip file).file = some (without ip (activeEntries now file) ++ Lines.written 0x0A []) := by
    simp [unban,address.ne_nil,Lines.written]
  rw [after]
  exact holds.written (w := ⟨ip,none,now⟩) early address fun v value => by cases value

theorem captured_eq_nil (printed : Str) : captured printed = [] ↔ ∀ u ∈ printed, newline u = true := by
  rw [captured,List.reverse_eq_nil_iff,List.dropWhile_eq_nil_iff]
  simp

theorem check_status {now : Nat} {ip : Str} (address : Address ip) (early : now < 2 ^ 53) (holds : Holds file entries) :
    (check now ip file).status = 0 ↔ ∃ v, (ip,v) ∈ entries ∧ stands now v = true := by
  have kept := holds.kept now
  have printed : captured (expiries now ip file) = [] ↔ ¬ ∃ v, (ip,v) ∈ entries ∧ stands now v = true := by
    rw [captured_eq_nil,expiries,activeEntries_eq early holds,records_lines kept]
    constructor
    · rintro ended ⟨v,member,standing⟩
      have within : (ip,v) ∈ entries.filter fun entry => stands now entry.2 := List.mem_filter.mpr ⟨member,standing⟩
      obtain ⟨u,digit⟩ := List.exists_mem_of_ne_nil _ (natText_ne_nil v)
      have plain := (not_blank (digit_not_space (natText_digits v u digit))).2
      rw [ended u] at plain
      · contradiction
      · simp only [Lines.written,List.mem_flatMap,List.mem_map,List.mem_filter]
        refine ⟨natText v,⟨line (ip,v),⟨⟨(ip,v),⟨member,standing⟩,rfl⟩,?_⟩,column_two (kept _ within).address⟩,by simp [digit]⟩
        rw [column_one (kept _ within).address,address.equal,decide_eq_true rfl]
    · intro absent u member
      simp only [Lines.written,List.mem_flatMap,List.mem_map,List.mem_filter] at member
      obtain ⟨_,⟨_,⟨⟨entry,within,rfl⟩,own⟩,rfl⟩,_⟩ := member
      have fits := holds.fits entry within.1
      rw [column_one fits.address,address.equal,decide_eq_true_eq] at own
      exact absurd ⟨entry.2,own ▸ within.1,within.2⟩ absent
  simp only [check,address.ne_nil,if_false]
  split_ifs with found
  · exact iff_of_true rfl (not_not.mp fun absent => found (printed.mpr absent))
  · refine iff_of_false (by decide) ?_
    exact printed.mp (not_not.mp found)

theorem list_lines {now : Nat} {ip : Str} (early : now < 2 ^ 53) (holds : Holds file entries) :
    (∃ text ∈ Lines.records newline (list now file).out, column 1 text = ip) ↔
      ∃ v, (ip,v) ∈ entries ∧ stands now v = true := by
  have kept := holds.kept now
  rw [list,activeEntries_eq early holds,records_lines kept]
  constructor
  · rintro ⟨text,member,rfl⟩
    obtain ⟨entry,within,rfl⟩ := List.mem_map.mp member
    obtain ⟨inside,standing⟩ := List.mem_filter.mp within
    rw [column_one (kept entry within).address]
    exact ⟨entry.2,inside,standing⟩
  · rintro ⟨v,inside,standing⟩
    have within : (ip,v) ∈ entries.filter fun entry => stands now entry.2 := List.mem_filter.mpr ⟨inside,standing⟩
    exact ⟨line (ip,v),List.mem_map_of_mem within,column_one (kept _ within).address⟩

end FipsShield.Banlist
