import FipsShield.Banlist.Reader
import FipsShield.Library.NumberText

/-! What the proxy makes of a line of the banlist that is not as the script writes it: the
last line that names an address decides, and `parseInt` reads as much of its expiry as it can. -/
namespace FipsShield.Banlist
open Text Numeral

/-! ## Times that a numeral gives -/

/-- The digits that a text starts with, and whether a minus is before them. -/
def leading (s : Str) : Bool × Str := ((signed true s).1,(signed true s).2.takeWhile isDigit)

theorem decimal_whole (negative : Bool) (ds : Str) : decimal negative ds 0 =
    if negative then (Number.nearest (digitsValue ds : ℚ)).neg else Number.nearest (digitsValue ds : ℚ) := by
  have one : Number.power 10 0 = 1 := by simp [Number.power]
  rw [decimal,one,mul_one]
  cases negative with
  | false => rfl
  | true => exact nearest_neg _

theorem parseInt_leading {s : Str} (plain : ∀ u ∈ s, isSpace u = false) : parseInt s =
    if (leading s).2 = [] then .nan
    else if (leading s).1 then (Number.nearest (digitsValue (leading s).2 : ℚ)).neg
    else Number.nearest (digitsValue (leading s).2 : ℚ) := by
  have same : s.dropWhile isSpace = s := by
    cases s with
    | nil => rfl
    | cons u rest => simp [plain u (by simp)]
  rw [parseInt,same,← decimal_whole]
  rfl

/-- What `isBanned` asks of an expiry in seconds. -/
def counts (now : Nat) (till : Number) : Bool := till = .nan || till = 0 || (now : Number) < rounded (till * 1000)

/-- What `isBanned` makes of the map that `loadBans` returns. -/
def decides (map : List (Str × Number)) (ip : Str) (now : Nat) : Bool := (lookup map ip).any (counts now)

theorem isBanned_eq (cache : BanCache) (ip : Str) {path : Str} (named : path ≠ []) (found : Found) (now : Nat) :
    isBanned cache ip path found now = (decides (loadBans cache path found).map ip now,loadBans cache path found) := by
  rw [isBanned,if_neg named,decides]
  dsimp only
  cases lookup (loadBans cache path found).map ip <;> rfl

theorem counts_natCast {now : Nat} (date : now < 2 ^ 53) (n : Nat) :
    counts now (n : Number) = true ↔ n = 0 ∨ now < n * 1000 := by
  have number : (n : Number) ≠ .nan := nofun
  have zero : ((n : Number) = 0) ↔ n = 0 := Number.natCast_inj n 0
  have later : now / 1000 < n ↔ now < n * 1000 := by omega
  simp [counts,number,zero,rounded_later date,later]

theorem counts_nearest {now : Nat} (date : now < 2 ^ 53) (n : Nat) :
    counts now (Number.nearest (n : ℚ)) = true ↔ n = 0 ∨ now < n * 1000 := by
  rcases lt_or_ge n (2 ^ 53) with small | large
  · rw [nearest_exact small]
    exact counts_natCast date n
  · have right : n = 0 ∨ now < n * 1000 := Or.inr (by omega)
    rcases nearest_large large with inf | ⟨m,bound,held⟩
    · rw [inf]
      exact iff_of_true rfl right
    · rw [held]
      exact iff_of_true ((counts_natCast date m).mpr (Or.inr (by omega))) right

/-- No instant is before a time that is not positive. -/
theorem not_later (now : Nat) {q : ℚ} (nonneg : 0 ≤ q) : ¬ (now : Number) < rounded (.fin (-q) * 1000) := by
  have scaled : (0 : ℚ) ≤ q * 1000 := mul_nonneg nonneg (by norm_num)
  have product : Number.fin (-q) * 1000 = .fin (-(q * 1000)) := by
    change Number.fin (-q * 1000) = _
    rw [neg_mul]
  rw [product,rounded,nearest_neg]
  rcases nearest_nonneg scaled with inf | ⟨r,positive,held⟩
  · rw [inf]
    exact Bool.false_ne_true
  · rw [held]
    refine mt (Number.fin_lt_fin _ _).mp (not_lt.mpr ?_)
    exact (neg_nonpos.mpr positive).trans (Nat.cast_nonneg now)

theorem counts_neg (now n : Nat) : counts now (Number.nearest (n : ℚ)).neg = true ↔ n = 0 := by
  rcases nearest_nonneg (Nat.cast_nonneg n : (0 : ℚ) ≤ n) with inf | ⟨q,nonneg,held⟩
  · rw [inf]
    refine iff_of_false Bool.false_ne_true ?_
    rintro rfl
    simp [Number.nearest] at inf
  · have zero : Number.fin (-q) = 0 ↔ n = 0 := by
      have none : (0 : Number) = .fin 0 := rfl
      rw [← nearest_eq_zero,held,none,Number.fin.injEq,Number.fin.injEq,neg_eq_zero]
    rw [held,Number.neg]
    simp [counts,zero,not_later now nonneg]

/-- A field that counts as a ban at an instant: it starts with no numeral, or with one of
zero, or with one of an instant to come. -/
def FailsClosed (field : Str) (now : Nat) : Prop :=
  (leading field).2 = [] ∨ digitsValue (leading field).2 = 0 ∨
    (leading field).1 = false ∧ now < digitsValue (leading field).2 * 1000

theorem counts_parseInt {field : Str} (plain : ∀ u ∈ field, isSpace u = false) {now : Nat} (date : now < 2 ^ 53) :
    counts now (parseInt field) = true ↔ FailsClosed field now := by
  rw [parseInt_leading plain,FailsClosed]
  by_cases none : (leading field).2 = []
  · rw [if_pos none]
    exact iff_of_true rfl (Or.inl none)
  · rw [if_neg none]
    cases sign : (leading field).1 with
    | true =>
      rw [if_pos rfl,counts_neg]
      simp [none]
    | false =>
      rw [if_neg (by decide),counts_nearest date]
      simp [none]

/-! ## The line that decides -/

/-- What a line assigns, if anything. -/
def assigned (line : Str) : Option (Str × Number) :=
  match parts line with
  | ip::till::_ => if ip ≠ [] then some (ip,parseInt till) else none
  | _ => none

theorem parseBans_eq (text : Str) : parseBans text = ((text.splitOn 0x0A).filterMap assigned).reverse := by
  have step (map : List (Str × Number)) (line : Str) : parseLine map line = (assigned line).toList ++ map := by
    rw [parseLine,assigned]
    rcases parts line with - | ⟨ip,- | ⟨till,others⟩⟩
    · rfl
    · rfl
    · dsimp only
      split_ifs <;> rfl
  have parsed : ∀ (lines : List Str) map, lines.foldl parseLine map = (lines.filterMap assigned).reverse ++ map := by
    intro lines
    induction lines with
    | nil => exact fun _ => rfl
    | cons line rest ih =>
      intro map
      rw [List.foldl_cons,step,ih]
      cases found : assigned line with
      | none => simp [found]
      | some entry => simp [found]
  rw [parseBans,parsed,List.append_nil]

/-- The last line of a text that names an address. -/
structure Last (text ip line : Str) : Prop where
  names : (parts line).head? = some ip
  split : ∃ earlier later, text.splitOn 0x0A = earlier ++ line::later ∧ ∀ other ∈ later, (parts other).head? ≠ some ip

theorem assigned_names {line : Str} {entry : Str × Number} (found : assigned line = some entry) :
    (parts line).head? = some entry.1 := by
  rw [assigned] at found
  split at found
  · next ip till rest split =>
    split_ifs at found
    rw [split,← Option.some.inj found]
    rfl
  · cases found

/-- A second part comes after one that is not empty, and neither has white space. -/
theorem parts_second {line field : Str} (second : (parts line)[1]? = some field) :
    (∀ ip, (parts line).head? = some ip → ip ≠ []) ∧ ∀ u ∈ field, isSpace u = false := by
  rw [parts] at second ⊢
  split_ifs at second ⊢
  · cases second
  · refine ⟨fun ip names => ?_,Lines.fields_free (List.mem_of_getElem? second)⟩
    have filled := (List.mem_filter.mp (List.mem_of_head? names)).2
    rintro rfl
    cases filled

theorem Last.lookup {text ip line field : Str} (last : Last text ip line) (second : (parts line)[1]? = some field) :
    lookup (parseBans text) ip = some (parseInt field) := by
  obtain ⟨earlier,later,split,others⟩ := last.split
  have named : ip ≠ [] := (parts_second second).1 ip last.names
  have own : assigned line = some (ip,parseInt field) := by
    have names := last.names
    rw [assigned]
    match parts line,names,second with
    | _::_::_,rfl,rfl => exact if_pos named
  have skipped : ((later.filterMap assigned).reverse.find? fun entry => entry.1 = ip) = none := by
    rw [List.find?_eq_none]
    intro entry member same
    obtain ⟨other,within,found⟩ := List.mem_filterMap.mp (List.mem_reverse.mp member)
    apply others other within
    rw [assigned_names found,of_decide_eq_true same]
  rw [Banlist.lookup,parseBans_eq,split,List.filterMap_append,List.reverse_append,List.filterMap_cons,own,
    List.reverse_cons,List.find?_append,List.find?_append,skipped]
  simp

section Decision
variable {cache : BanCache} {path ip line field : Str} {files : List File} {file : File} {now : Nat}

theorem isBanned_last (named : path ≠ []) (remembers : cache.Remembers path files) (told : file.Told files)
    (last : Last file.text ip line) (second : (parts line)[1]? = some field) :
    (isBanned cache ip path (.readable file) now).1 = counts now (parseInt field) := by
  have found := last.lookup second
  rw [← loadBans_map remembers told] at found
  rw [isBanned_eq cache ip named,decides,found]
  rfl

/-- Where the line that decides on an address has an expiry that is no integer, the address
is banned exactly if the expiry starts with no numeral, or with one that counts as a ban. -/
theorem corrupt_closed_iff (named : path ≠ []) (remembers : cache.Remembers path files) (told : file.Told files)
    (last : Last file.text ip line) (second : (parts line)[1]? = some field) (date : now < 2 ^ 53) :
    (isInteger field = false → (isBanned cache ip path (.readable file) now).1 = true) ↔
      (isInteger field = false → FailsClosed field now) := by
  rw [isBanned_last named remembers told last second,counts_parseInt (parts_second second).2 date]

end Decision

def torn : File := ⟨str "10.0.0.7 12abc\n",1⟩

theorem torn_last : Last torn.text (str "10.0.0.7") (str "10.0.0.7 12abc") where
  names := by decide +kernel
  split := ⟨[],[[]],by decide +kernel,by decide +kernel⟩

theorem corrupt_closed_torn : (isBanned .initial (str "10.0.0.7") (str "b") (.readable torn) 11999).1 = true := by
  have torn_iff := @corrupt_closed_iff .initial (str "b") (str "10.0.0.7") (str "10.0.0.7 12abc") (str "12abc") [] torn
    11999 (by decide) (initial_remembers (by decide) []) (by decide) torn_last (by decide +kernel) (by decide)
  exact torn_iff.mpr (fun _ => by unfold FailsClosed; decide +kernel) (by decide +kernel)

/-- The numeral that the field starts with is a second long past. -/
theorem corrupt_open : ¬ ∀ (path ip line field : Str) (file : File) (now : Nat), path ≠ [] → Last file.text ip line →
    (parts line)[1]? = some field → isInteger field = false →
    (isBanned .initial ip path (.readable file) now).1 = true := by
  intro claim
  have banned := claim (str "b") (str "10.0.0.7") (str "10.0.0.7 12abc") (str "12abc") torn 12000 (by decide)
    torn_last (by decide +kernel) (by decide +kernel)
  revert banned
  decide +kernel

end FipsShield.Banlist
