import FipsShield.Banlist.Entries

/-! The banlist as the proxy reads it (`core/njs/shield_core.js`): a parse that is kept
while the file's time and size stay, and the decision on one address. -/
namespace FipsShield.Banlist
open Text Numeral

structure File where
  text : Str
  mtime : ℚ

def File.size (file : File) : Nat := (fromString file.text).length

/-- What a check finds at the path; a file that is there may still fail to be read. -/
inductive Found where
  | missing
  | unreadable (file : File)
  | readable (file : File)

/-- `banCache` and `banLoadFailed`; the map has its latest assignment first. -/
structure BanCache where
  path : Str
  mtime : ℚ
  size : Int
  map : List (Str × Number)
  loadFailed : Bool

def BanCache.initial : BanCache := ⟨[],0,-1,[],false⟩

/-- `line.trim().split(/\s+/)`. -/
def parts (line : Str) : List Str := if trim line = [] then [[]] else Lines.fields isSpace (trim line)

def parseLine (map : List (Str × Number)) (line : Str) : List (Str × Number) :=
  match parts line with
  | ip::till::_ => if ip ≠ [] then (ip,parseInt till)::map else map
  | _ => map

def parseBans (text : Str) : List (Str × Number) := (text.splitOn 0x0A).foldl parseLine []

def loadBans (cache : BanCache) (path : Str) : Found → BanCache
  | .missing => ⟨path,0,-1,[],true⟩
  | .unreadable _ => { cache with loadFailed := false }
  | .readable file =>
    if cache.path = path ∧ cache.mtime = file.mtime ∧ cache.size = file.size then
      { cache with loadFailed := false }
    else ⟨path,file.mtime,file.size,parseBans file.text,false⟩

def lookup (map : List (Str × Number)) (ip : Str) : Option Number :=
  (map.find? fun entry => entry.1 = ip).map Prod.snd

/-- A product as binary64 holds it. -/
def rounded : Number → Number
  | .fin q => Number.nearest q
  | other => other

/-- `isBanned`, with `Date.now()` at the check. -/
def isBanned (cache : BanCache) (ip path : Str) (found : Found) (now : Nat) : Bool × BanCache :=
  if path = [] then (false,cache)
  else
    let loaded := loadBans cache path found
    match lookup loaded.map ip with
    | none => (false,loaded)
    -- An expiry that is no number counts as a ban.
    | some till => (till = .nan || till = 0 || (now : Number) < rounded (till * 1000),loaded)

theorem isBanned_cache (cache : BanCache) (ip : Str) {path : Str} (named : path ≠ []) (found : Found) (now : Nat) :
    (isBanned cache ip path found now).2 = loadBans cache path found := by
  simp only [isBanned,if_neg named]
  split <;> rfl

/-! ## The parse -/

variable {entry : Entry} {entries : List Entry}

theorem trim_eq {s : Str} {u v : UInt16} (first : s.head? = some u) (last : s.getLast? = some v)
    (plain : isSpace u = false) (plain' : isSpace v = false) : trim s = s := by
  have left : s.dropWhile isSpace = s := by
    cases s with
    | nil => rfl
    | cons x rest =>
      obtain rfl := Option.some.inj first
      simp [plain]
  have right : s.reverse.dropWhile isSpace = s.reverse := by
    have head : s.reverse.head? = some v := by rw [List.head?_reverse,last]
    cases reversed : s.reverse with
    | nil => rfl
    | cons x rest =>
      rw [reversed] at head
      obtain rfl := Option.some.inj head
      simp [plain']
  rw [trim,left,right,List.reverse_reverse]

theorem parts_line (address : Address entry.1) : parts (line entry) = [entry.1,natText entry.2] := by
  have plain := @Address.plain entry address
  have same : trim (line entry) = line entry := by
    cases ip : entry.1 with
    | nil => exact absurd ip address.ne_nil
    | cons u rest =>
      have last : (line entry).getLast? = some ((natText entry.2).getLast (natText_ne_nil _)) := by
        rw [line,List.getLast?_append_of_ne_nil _ (by simp),List.getLast?_cons,
          List.getLast?_eq_some_getLast (natText_ne_nil _)]
        rfl
      apply trim_eq (by rw [line,ip]; rfl) last
      · exact plain.1 u (by simp [ip])
      · exact plain.2 _ (List.getLast_mem _)
  have filled : line entry ≠ [] := by simp [line]
  rw [parts,same,if_neg filled]
  exact Lines.fields_pair (by decide) plain.1 plain.2 address.ne_nil (natText_ne_nil _)

theorem parseBans_lines (fits : ∀ entry ∈ entries, Fits entry) :
    parseBans (Lines.written 0x0A (entries.map line)) =
      (entries.map fun entry => (entry.1,(entry.2 : Number))).reverse := by
  have lines : (Lines.written 0x0A (entries.map line)).splitOn 0x0A = entries.map line ++ [[]] := by
    apply Lines.splitOnP_written (by decide)
    intro text member
    obtain ⟨entry,within,rfl⟩ := List.mem_map.mp member
    exact line_one (fits entry within).address
  have parsed : ∀ map, (entries.map line).foldl parseLine map =
      (entries.map fun entry => (entry.1,(entry.2 : Number))).reverse ++ map := by
    clear lines
    induction entries with
    | nil => exact fun _ => rfl
    | cons entry rest ih =>
      intro map
      have own := fits entry (by simp)
      have step : parseLine map (line entry) = (entry.1,(entry.2 : Number))::map := by
        simp [parseLine,parts_line own.address,own.address.ne_nil,parseInt_natText own.small]
      rw [List.map_cons,List.foldl_cons,step,ih fun other member => fits other (by simp [member])]
      simp
  rw [parseBans,lines,List.foldl_append,parsed]
  simp [parseLine,parts,trim]

theorem lookup_iff {map : List (Str × Number)} (single : (map.map Prod.fst).Nodup) (ip : Str) (v : Number) :
    lookup map ip = some v ↔ (ip,v) ∈ map := by
  induction map with
  | nil => simp [lookup]
  | cons entry rest ih =>
    obtain ⟨fresh,others⟩ := List.nodup_cons.mp single
    have later := ih others
    rw [lookup] at later ⊢
    rw [List.find?_cons,List.mem_cons]
    by_cases own : entry.1 = ip
    · have absent : (ip,v) ∉ rest := fun member => fresh (own ▸ List.mem_map_of_mem member)
      simp only [own,decide_true,Option.map_some,Option.some.injEq,absent,or_false]
      constructor
      · rintro rfl
        rw [← own]
      · intro same
        rw [← same]
    · have other : (ip,v) ≠ entry := by rintro rfl; exact own rfl
      simp [own,other,later]

/-! ## The cache -/

/-- No other text was in the file with the time and size it has now. -/
def File.Told (file : File) (files : List File) : Prop :=
  ∀ other ∈ files, other.mtime = file.mtime → other.size = file.size → other.text = file.text

instance (file : File) (files : List File) : Decidable (file.Told files) :=
  inferInstanceAs (Decidable (∀ other ∈ files, _ → _ → _))

/-- What the cache has of the path is the parse of a file that was there. -/
def BanCache.Remembers (cache : BanCache) (path : Str) (files : List File) : Prop :=
  cache.path = path → 0 ≤ cache.size →
    ∃ file ∈ files, cache.mtime = file.mtime ∧ cache.size = file.size ∧ cache.map = parseBans file.text

variable {path : Str} {files : List File} {cache : BanCache}

theorem initial_remembers (named : path ≠ []) (files : List File) : BanCache.initial.Remembers path files :=
  fun same => absurd same.symm named

theorem BanCache.Remembers.cons (remembers : cache.Remembers path files) (file : File) :
    cache.Remembers path (file::files) := by
  intro same size
  obtain ⟨seen,member,stamp⟩ := remembers same size
  exact ⟨seen,List.mem_cons_of_mem _ member,stamp⟩

theorem loadBans_remembers (remembers : cache.Remembers path files) {found : Found}
    (current : ∀ file, found = .readable file → file ∈ files) :
    (loadBans cache path found).Remembers path files := by
  cases found with
  | missing =>
    intro _ size
    exact absurd size (by simp [loadBans])
  | unreadable file => exact remembers
  | readable file =>
    rw [loadBans]
    split_ifs
    · exact remembers
    · exact fun _ _ => ⟨file,current file rfl,rfl,rfl,rfl⟩

theorem loadBans_map (remembers : cache.Remembers path files) {file : File} (told : file.Told files) :
    (loadBans cache path (.readable file)).map = parseBans file.text := by
  rw [loadBans]
  split_ifs with same
  · obtain ⟨named,mtime,size⟩ := same
    obtain ⟨seen,member,mtime',size',map⟩ := remembers named (size ▸ Int.natCast_nonneg _)
    have text := told seen member (mtime'.symm.trans mtime) (Int.ofNat_inj.mp (size'.symm.trans size))
    rw [← text]
    exact map
  · rfl

/-! ## The decision -/

/-- An expiry in milliseconds is after an instant that a date can hold exactly when the
script finds it after that second. -/
theorem rounded_later {now : Nat} (date : now < 2 ^ 53) (till : Nat) :
    ((now : Number) < rounded ((till : Number) * 1000)) ↔ now / 1000 < till := by
  have product : (till : Number) * 1000 = .fin ((till * 1000 : Nat) : ℚ) := by
    change Number.fin (till * 1000) = _
    push_cast
    rfl
  rw [product,rounded]
  rcases lt_or_ge (till * 1000) (2 ^ 53) with small | large
  · rw [nearest_exact small]
    have exact : ((now : Number) < .fin ((till * 1000 : Nat) : ℚ)) ↔ now < till * 1000 := Number.natCast_lt _ _
    rw [exact]
    omega
  · have after := Number.lt_of_natCast_le date (le_nearest large)
    exact iff_of_true after (by omega)

/-- The proxy bans the addresses with an entry that stands. -/
theorem isBanned_iff (named : path ≠ []) (remembers : cache.Remembers path files) {file : File} (told : file.Told files)
    (holds : Holds (some file.text) entries) (single : (entries.map Prod.fst).Nodup) (ip : Str) {now : Nat}
    (date : now < 2 ^ 53) :
    (isBanned cache ip path (.readable file) now).1 = true ↔
      ∃ v, (ip,v) ∈ entries ∧ stands (now / 1000) v = true := by
  have text : file.text = Lines.written 0x0A (entries.map line) := holds.text
  have map := loadBans_map remembers told
  rw [text,parseBans_lines holds.fits] at map
  have keys : ((loadBans cache path (.readable file)).map.map Prod.fst).Nodup := by
    rw [map,List.map_reverse,List.nodup_reverse,List.map_map]
    exact single
  have found (v : Number) : lookup (loadBans cache path (.readable file)).map ip = some v ↔
      ∃ till, (ip,till) ∈ entries ∧ (till : Number) = v := by
    rw [lookup_iff keys,map]
    simp only [List.mem_reverse,List.mem_map,Prod.mk.injEq]
    constructor
    · rintro ⟨entry,within,rfl,same⟩
      exact ⟨entry.2,within,same⟩
    · rintro ⟨till,within,same⟩
      exact ⟨(ip,till),within,rfl,same⟩
  simp only [isBanned,if_neg named]
  split
  · next none =>
    refine iff_of_false (by simp) ?_
    rintro ⟨v,within,_⟩
    have some := (found v).mpr ⟨v,within,rfl⟩
    rw [none] at some
    contradiction
  · next value some =>
    obtain ⟨till,within,rfl⟩ := (found value).mp some
    have decided : ((till : Number) = .nan || (till : Number) = 0 || (now : Number) < rounded ((till : Number) * 1000)) =
        stands (now / 1000) till := by
      have number : (till : Number) ≠ .nan := nofun
      have zero : ((till : Number) = 0) ↔ till = 0 := Number.natCast_inj till 0
      simp [stands,number,zero,rounded_later date]
    rw [decided]
    constructor
    · intro standing
      exact ⟨till,within,standing⟩
    · rintro ⟨other,within',standing⟩
      have same := (found other).mpr ⟨other,within',rfl⟩
      rw [some,Option.some.injEq,Number.natCast_inj] at same
      rw [same]
      exact standing

end FipsShield.Banlist
