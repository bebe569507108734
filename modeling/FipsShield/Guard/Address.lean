import FipsShield.Guard.Commands
import FipsShield.Banlist.Entries

/-! Texts of IP addresses: how the guard's `parse` reads them, and the one text of an IPv6
address that is lowercase and compressed, as the banlist has it. -/
namespace FipsShield.Guard
open Text Numeral

/-! ## Reading -/

def isHex (u : UInt16) : Bool := isDigit u || (0x41 ≤ u && u ≤ 0x46) || (0x61 ≤ u && u ≤ 0x66)

def hexValue (u : UInt16) : Nat :=
  if isDigit u then u.toNat - 0x30 else if u ≤ 0x46 then u.toNat - 0x37 else u.toNat - 0x57

/-- A group of four hexadecimal digits at most. -/
def readHex (s : Str) : Option (Nat × Str) :=
  let ds := s.takeWhile isHex
  if ds = [] ∨ 4 < ds.length then none
  else some (ds.foldl (fun n d => n * 16 + hexValue d) 0,s.dropWhile isHex)

/-- A byte in decimal, without a leading zero. -/
def readByte (s : Str) : Option (Nat × Str) :=
  let ds := s.takeWhile isDigit
  if ds = [] ∨ 3 < ds.length ∨ (ds.head? = some 0x30 ∧ 1 < ds.length) ∨ 255 < digitsValue ds then none
  else some (digitsValue ds,s.dropWhile isDigit)

/-- What comes at an index: after the first one, behind a separator. -/
def readSeparated {α : Type} (separator : UInt16) (i : Nat) (inner : Str → Option (α × Str)) (s : Str) :
    Option (α × Str) :=
  if i = 0 then inner s
  else match s with
  | u::rest => if u = separator then inner rest else none
  | [] => none

def readV4 (s : Str) : Option (Vector UInt8 4 × Str) := do
  let (a,s) ← readSeparated 0x2E 0 readByte s
  let (b,s) ← readSeparated 0x2E 1 readByte s
  let (c,s) ← readSeparated 0x2E 2 readByte s
  let (d,s) ← readSeparated 0x2E 3 readByte s
  return (#v[.ofNat a,.ofNat b,.ofNat c,.ofNat d],s)

/-- Groups up to a limit, of which `i` are read; an IPv4 address may stand for the last two. -/
def readGroups : Nat → Nat → Str → List Nat × Bool × Str
  | 0, _, s => ([],false,s)
  | left+1, i, s =>
    match if 0 < left then readSeparated 0x3A i readV4 s else none with
    | some (v4,rest) => ([v4[0].toNat * 256 + v4[1].toNat,v4[2].toNat * 256 + v4[3].toNat],true,rest)
    | none =>
      match readSeparated 0x3A i readHex s with
      | some (group,rest) =>
        let (groups,v4,rest) := readGroups left (i + 1) rest
        (group::groups,v4,rest)
      | none => ([],false,s)

def readV6 (s : Str) : Option (List Nat × Str) :=
  let (head,v4,rest) := readGroups 8 0 s
  if head.length = 8 then some (head,rest)
  else if v4 then none
  else match rest with
  | 0x3A::0x3A::rest =>
    let (tail,_,rest) := readGroups (7 - head.length) 0 rest
    some (head ++ List.replicate (8 - head.length - tail.length) 0 ++ tail,rest)
  | _ => none

def ofGroups (groups : List Nat) : Addr6 :=
  ⟨Vector.ofFn fun i => .ofNat (if i.val % 2 = 0 then groups.getD (i / 2) 0 / 256 else groups.getD (i / 2) 0 % 256)⟩

/-- `s.parse::<IpAddr>()`. -/
def parseIp (s : Str) : Option IpAddr :=
  match readV4 s with
  | some (v4,rest) => if rest = [] then some (.v4 v4) else none
  | none =>
    match readV6 s with
    | some (groups,rest) => if rest = [] then some (.v6 (ofGroups groups)) else none
    | none => none

/-! ## The canonical text -/

def groups (a : Addr6) : List Nat :=
  (List.range 8).map fun i => (a.b.toList.getD (2 * i) 0).toNat * 256 + (a.b.toList.getD (2 * i + 1) 0).toNat

/-- The longest run of zeros, the first one of several: where it starts, and its length. -/
def zeroes (groups : List Nat) : Nat × Nat :=
  (groups.zipIdx.foldl (fun (longest,current) (group,i) =>
    let current := if group = 0 then (if current.2 = 0 then i else current.1,current.2 + 1) else (0,0)
    (if longest.2 < current.2 then current else longest,current)) (((0,0),(0,0)) : (Nat × Nat) × (Nat × Nat))).1

def hexText (n : Nat) : Str := (Nat.toDigits 16 n).flatMap utf16

def colons (groups : List Nat) : Str := [0x3A].intercalate (groups.map hexText)

def canonicalText (a : Addr6) : Str :=
  let gs := groups a
  if gs.take 6 = [0,0,0,0,0,0xFFFF] then
    str "::ffff:" ++ [0x2E].intercalate ((a.b.toList.drop 12).map fun byte => natText byte.toNat)
  else
    let run := zeroes gs
    if 1 < run.2 then colons (gs.take run.1) ++ str "::" ++ colons (gs.drop (run.1 + run.2)) else colons gs

/-- The text that an IPv6 address has in the banlist. -/
def Canonical (ip : Str) (a : Addr6) : Prop := parseIp ip = some (.v6 a) ∧ canonicalText a = ip

instance (ip : Str) (a : Addr6) : Decidable (Canonical ip a) := inferInstanceAs (Decidable (_ ∧ _))

example : (parseIp (str "fd97:0:0:1::7")).map (fun
    | .v6 a => canonicalText a
    | .v4 _ => []) = some (str "fd97:0:0:1::7") := by decide +kernel
example : (parseIp (str "::FFFF:10.0.0.7")).map (fun
    | .v6 a => canonicalText a
    | .v4 _ => []) = some (str "::ffff:10.0.0.7") := by decide +kernel
example : parseIp (str "fd97::1::2") = none := by decide +kernel

theorem canonical_unique {ip ip' : Str} {a : Addr6} (canonical : Canonical ip a) (canonical' : Canonical ip' a) : ip = ip' :=
  canonical.2.symm.trans canonical'.2

theorem canonical_key {ip : Str} {a a' : Addr6} (canonical : Canonical ip a) (canonical' : Canonical ip a') : a = a' := by
  have same := canonical.1.symm.trans canonical'.1
  simpa using same

theorem mem_intercalate {u separator : UInt16} {texts : List Str} (member : u ∈ [separator].intercalate texts) :
    u = separator ∨ ∃ text ∈ texts, u ∈ text := by
  induction texts with
  | nil => simp [List.intercalate_nil] at member
  | cons text rest ih =>
    cases rest with
    | nil =>
      rw [List.intercalate_singleton] at member
      exact Or.inr ⟨text,by simp,member⟩
    | cons next others =>
      rw [List.intercalate_cons_cons,List.mem_append,List.mem_append,List.mem_singleton] at member
      rcases member with (own | gap) | later
      · exact Or.inr ⟨text,by simp,own⟩
      · exact Or.inl gap
      · refine (ih later).imp_right ?_
        rintro ⟨other,within,inside⟩
        exact ⟨other,List.mem_cons_of_mem _ within,inside⟩

theorem hexText_address (n : Nat) : ∀ u ∈ hexText n, Banlist.inAddress u = true := by
  have digits : ∀ d < 16, (utf16 d.digitChar).all Banlist.inAddress = true := by decide
  have digit (d : Nat) (small : d < 16) := List.all_eq_true.mp (digits d small)
  induction n using Nat.strongRecOn with
  | ind n ih =>
    intro u member
    rw [hexText,Nat.toDigits_eq_if (by decide)] at member
    split_ifs at member with small
    · exact digit n small u (by simpa using member)
    · rw [List.flatMap_append,List.mem_append] at member
      rcases member with before | last
      · exact ih (n / 16) (Nat.div_lt_self (by omega) (by decide)) u before
      · exact digit (n % 16) (Nat.mod_lt _ (by decide)) u (by simpa using last)

theorem colons_address (groups : List Nat) : ∀ u ∈ colons groups, Banlist.inAddress u = true := by
  intro u member
  rcases mem_intercalate member with rfl | ⟨text,within,inside⟩
  · decide
  · obtain ⟨n,_,rfl⟩ := List.mem_map.mp within
    exact hexText_address n u inside

/-- The canonical text is one that the banlist can hold. -/
theorem canonicalText_address (a : Addr6) : Banlist.Address (canonicalText a) := by
  have mapped := List.all_eq_true.mp (by decide : (str "::ffff:").all Banlist.inAddress = true)
  have gap := List.all_eq_true.mp (by decide : (str "::").all Banlist.inAddress = true)
  simp only [canonicalText]
  split_ifs with v4 compressed
  · refine ⟨?_,Or.inl (List.mem_append_left _ (by decide))⟩
    intro u member
    rcases List.mem_append.mp member with first | rest
    · exact mapped u first
    · rcases mem_intercalate rest with rfl | ⟨text,within,inside⟩
      · decide
      · obtain ⟨byte,_,rfl⟩ := List.mem_map.mp within
        have digit := natText_digits _ u inside
        simp [Banlist.inAddress,digit]
  · refine ⟨?_,Or.inl (List.mem_append_left _ (List.mem_append_right _ (by decide)))⟩
    intro u member
    rcases List.mem_append.mp member with first | last
    · rcases List.mem_append.mp first with before | run
      · exact colons_address _ u before
      · exact gap u run
    · exact colons_address _ u last
  · refine ⟨colons_address _,Or.inl ?_⟩
    obtain ⟨first,second,rest,shape⟩ : ∃ first second rest, groups a = first::second::rest := ⟨_,_,_,rfl⟩
    rw [shape,colons,List.map_cons,List.map_cons,List.intercalate_cons_cons]
    simp

end FipsShield.Guard
