import FipsShield.Library.JsonText

/-! The JSON writer of the UI (`ui/src/json.rs`): whatever strings it is given, its documents
parse to exactly what was written. -/
namespace FipsShield.Ui
open Text Json Numeral

/-- A Rust string, as a JSON parser is given it. -/
def units (s : List Char) : Str := s.flatMap utf16

def escape (c : Char) : List Char :=
  if c = '"' then ['\\','"']
  else if c = '\\' then ['\\','\\']
  else if c = '\n' then ['\\','n']
  else if c = '\r' then ['\\','r']
  else if c = '\t' then ['\\','t']
  else if c.toNat < 0x20 then ['\\','u'] ++ List.leftpad 4 '0' (Nat.toDigits 16 c.toNat)
  else [c]

def pushStr (out s : List Char) : List Char := out ++ ['"'] ++ s.flatMap escape ++ ['"']

structure Obj where
  buf : List Char
  first : Bool

namespace Obj

def new : Obj := ⟨['{'],true⟩

def key (o : Obj) (k : List Char) : Obj :=
  let buf := if o.first then o.buf else o.buf ++ [',']
  ⟨pushStr buf k ++ [':'],false⟩

def str (o : Obj) (k v : List Char) : Obj :=
  let o := o.key k
  {o with buf := pushStr o.buf v}

def num (o : Obj) (k : List Char) (v : UInt64) : Obj :=
  let o := o.key k
  {o with buf := o.buf ++ Nat.toDigits 10 v.toNat}

def bool (o : Obj) (k : List Char) (v : Bool) : Obj :=
  let o := o.key k
  {o with buf := o.buf ++ (if v then "true" else "false").toList}

def raw (o : Obj) (k v : List Char) : Obj :=
  let o := o.key k
  {o with buf := o.buf ++ v}

/-- The document, and the object that is left without it. -/
def done (o : Obj) : List Char × Obj := (o.buf ++ ['}'],{o with buf := []})

end Obj

/-- Serialised items one after another, each written by the same function. -/
def listing {α : Type} (push : List Char → α → List Char) (items : List α) : List Char :=
  items.zipIdx.foldl (fun out (it,i) => push (if 0 < i then out ++ [','] else out) it) ['['] ++ [']']

def arr (items : List (List Char)) : List Char := listing (· ++ ·) items

def strArr (items : List (List Char)) : List Char := listing pushStr items

example : (((Obj.new.str "a".toList "1".toList).num "b".toList 2).bool "c".toList true).done.1 =
    "\x7b\"a\":\"1\",\"b\":2,\"c\":true\x7d".toList := by decide

/-! ## Strings -/

theorem units_append (a b : List Char) : units (a ++ b) = units a ++ units b := List.flatMap_append

/-- Different strings are given to a parser as different texts. -/
theorem units_injective {a b : List Char} (same : units a = units b) : a = b := by
  have back := congrArg scalars same
  rwa [units,units,scalars_utf16,scalars_utf16] at back

theorem units_hex : ∀ n < 0x20, ∃ a b c d, units (List.leftpad 4 '0' (Nat.toDigits 16 n)) = [a,b,c,d] ∧
    hex4 a b c d = some (UInt16.ofNat n) := by
  have digits : ∀ n < 0x20, ∃ s ∈ [units (List.leftpad 4 '0' (Nat.toDigits 16 n))], s.length = 4 ∧
      hex4 (s.getD 0 0) (s.getD 1 0) (s.getD 2 0) (s.getD 3 0) = some (UInt16.ofNat n) := by decide +kernel
  intro n small
  obtain ⟨s,member,size,value⟩ := digits n small
  obtain ⟨a,b,c,d,rfl⟩ : ∃ a b c d, s = [a,b,c,d] := List.length_eq_four.mp size
  exact ⟨a,b,c,d,(List.mem_singleton.mp member).symm,value⟩

/-- Characters that a string may hold as they are. -/
theorem stringBody_utf16 {c : Char} (quote : c.toNat ≠ 0x22) (slash : c.toNat ≠ 0x5C) (control : ¬ c.toNat < 0x20)
    (t : Str) : stringBody (utf16 c ++ t) = (stringBody t).map fun r => (utf16 c ++ r.1,r.2) := by
  have plain {n : Nat} (small : n < 0x10000) (quote : n ≠ 0x22) (slash : n ≠ 0x5C) (control : ¬ n < 0x20) (t : Str) :
      stringBody (UInt16.ofNat n::t) = (stringBody t).map fun r => (UInt16.ofNat n::r.1,r.2) := by
    have value : (UInt16.ofNat n).toNat = n := by
      rw [UInt16.toNat_ofNat']
      exact Nat.mod_eq_of_lt small
    refine stringBody_plain ?_ ?_ ?_ t
    · rintro same
      exact quote (value.symm.trans (congrArg UInt16.toNat same))
    · rintro same
      exact slash (value.symm.trans (congrArg UInt16.toNat same))
    · rw [UInt16.lt_iff_toNat_lt,value]
      exact control
  have bound : c.toNat < 0x110000 := by
    rcases c.valid with low | ⟨_,high⟩
    · exact low.trans (by decide)
    · exact high
  unfold utf16
  split_ifs with small
  · exact plain small quote slash control t
  · have high : 0xD800 + (c.toNat - 0x10000) / 0x400 < 0x10000 := by omega
    have low : 0xDC00 + (c.toNat - 0x10000) % 0x400 < 0x10000 := by omega
    simp only [List.cons_append,List.nil_append]
    rw [plain high (by omega) (by omega) (by omega),plain low (by omega) (by omega) (by omega),Option.map_map]
    rfl

/-- Every escape reads back as the character that it stands for, whatever comes next. -/
theorem stringBody_escape (c : Char) (t : Str) :
    stringBody (units (escape c) ++ t) = (stringBody t).map fun r => (utf16 c ++ r.1,r.2) := by
  have short {e : Char} (unit : UInt16) (text : units ['\\',e] = [0x5C,UInt16.ofNat e.toNat])
      (letter : UInt16.ofNat e.toNat ≠ 0x75) (value : escaped (UInt16.ofNat e.toNat) = some unit)
      (same : utf16 c = [unit]) :
      stringBody (units ['\\',e] ++ t) = (stringBody t).map fun r => (utf16 c ++ r.1,r.2) := by
    rw [text,same]
    simp only [List.cons_append,List.nil_append]
    rw [Json.stringBody_escape letter,value]
    rfl
  unfold escape
  split_ifs with quote slash newline carriage tab control
  · subst quote
    exact short 0x22 (by decide) (by decide) (by decide) (by decide)
  · subst slash
    exact short 0x5C (by decide) (by decide) (by decide) (by decide)
  · subst newline
    exact short 0x0A (by decide) (by decide) (by decide) (by decide)
  · subst carriage
    exact short 0x0D (by decide) (by decide) (by decide) (by decide)
  · subst tab
    exact short 0x09 (by decide) (by decide) (by decide) (by decide)
  · obtain ⟨a,b,d,e,digits,value⟩ := units_hex c.toNat control
    have start : units ['\\','u'] = [0x5C,0x75] := by decide
    have same : utf16 c = [UInt16.ofNat c.toNat] := if_pos (by omega)
    rw [units_append,start,digits,same]
    simp only [List.cons_append,List.nil_append]
    rw [stringBody_unicode,value]
    rfl
  · have code {d : Char} (other : c ≠ d) : c.toNat ≠ d.toNat := fun same => other (Char.toNat_inj.mp same)
    have one : units [c] = utf16 c := List.append_nil _
    rw [one]
    exact stringBody_utf16 (code quote) (code slash) control t

theorem stringBody_pushed (s : List Char) (t : Str) :
    stringBody (units (s.flatMap escape) ++ 0x22::t) = some (units s,t) := by
  induction s with
  | nil => exact stringBody_quote t
  | cons c rest ih =>
    rw [List.flatMap_cons,units_append,List.append_assoc,stringBody_escape,ih]
    rfl

theorem pushStr_eq (out s : List Char) : pushStr out s = out ++ pushStr [] s := by
  simp [pushStr]

theorem units_pushStr (s : List Char) : units (pushStr [] s) = 0x22::(units (s.flatMap escape) ++ [0x22]) := by
  have quote : units ['"'] = [0x22] := by decide
  rw [pushStr,List.nil_append,units_append,units_append,quote]
  rfl

theorem parse_pushStr (s : List Char) : parse (units (pushStr [] s)) = some (.str (units s)) := by
  rw [units_pushStr]
  exact parse_string (stringBody_pushed s)

theorem units_toDigits (n : Nat) : units (Nat.toDigits 10 n) = natText n :=
  flatMap_digits fun c member => Nat.isDigit_of_mem_toDigits (by decide) (by decide) member

/-! ## Objects -/

/-- One call on an object under construction. -/
inductive Call where
  | str (k v : List Char)
  | num (k : List Char) (v : UInt64)
  | bool (k : List Char) (v : Bool)
  | raw (k v : List Char)

def Obj.call (o : Obj) : Call → Obj
  | .str k v => o.str k v
  | .num k v => o.num k v
  | .bool k v => o.bool k v
  | .raw k v => o.raw k v

namespace Call

def key : Call → List Char
  | .str k _ | .num k _ | .bool k _ | .raw k _ => k

/-- The text of the value that a call inserts. -/
def text : Call → List Char
  | .str _ v => pushStr [] v
  | .num _ v => Nat.toDigits 10 v.toNat
  | .bool _ v => (if v then "true" else "false").toList
  | .raw _ v => v

/-- What a call is to stand for; a raw value is whatever its text parses to. -/
def Inserts : Call → Json → Prop
  | .str _ v, item => item = .str (units v)
  | .num _ v, item => item = .num (Number.nearest v.toNat)
  | .bool _ v, item => item = .bool v
  | .raw _ v, item => parse (units v) = some item

def Member (c : Call) (member : Str × Json) : Prop := member.1 = units c.key ∧ c.Inserts member.2

def memberText (c : Call) : Str := units (pushStr [] c.key) ++ 0x3A::units c.text

theorem parse_text {c : Call} {item : Json} (inserts : c.Inserts item) : parse (units c.text) = some item := by
  cases c with
  | str k v =>
    obtain rfl := inserts
    exact parse_pushStr v
  | num k v =>
    obtain rfl := inserts
    rw [text,units_toDigits]
    exact parse_natText v.toNat
  | bool k v =>
    obtain rfl := inserts
    cases v with
    | true => exact parse_true
    | false => exact parse_false
  | raw k v => exact inserts

theorem writesMember {c : Call} {member : Str × Json} (inserts : c.Member member) : WritesMember c.memberText member := by
  obtain ⟨name,value⟩ := inserts
  refine ⟨units (c.key.flatMap escape),units c.text,?_,?_,parse_iff_writes.mp (parse_text value)⟩
  · rw [memberText,units_pushStr]
    simp
  · intro t
    rw [name]
    exact stringBody_pushed c.key t

end Call

theorem call_buf (o : Obj) (c : Call) : (o.call c).first = false ∧
    units (o.call c).buf = units (if o.first then o.buf else o.buf ++ [',']) ++ c.memberText := by
  have colon : units [':'] = [0x3A] := by decide
  have keyed (k : List Char) : units (o.key k).buf =
      units (if o.first then o.buf else o.buf ++ [',']) ++ (units (pushStr [] k) ++ [0x3A]) := by
    rw [Obj.key,pushStr_eq]
    dsimp only
    rw [units_append,units_append,colon,List.append_assoc]
  have valued (k v : List Char) : units ((o.key k).buf ++ v) =
      units (if o.first then o.buf else o.buf ++ [',']) ++ (units (pushStr [] k) ++ 0x3A::units v) := by
    rw [units_append,keyed]
    simp
  cases c with
  | str k v =>
    refine ⟨rfl,?_⟩
    rw [Obj.call,Obj.str]
    dsimp only
    rw [pushStr_eq]
    exact valued k _
  | num k v => exact ⟨rfl,valued k _⟩
  | bool k v => exact ⟨rfl,valued k _⟩
  | raw k v => exact ⟨rfl,valued k _⟩

/-- The members so far, a separator between any two, behind an opening brace. -/
theorem calls_buf (calls : List Call) : (calls.foldl Obj.call Obj.new).first = calls.isEmpty ∧
    units (calls.foldl Obj.call Obj.new).buf = 0x7B::separated (calls.map Call.memberText) := by
  induction calls using List.reverseRecOn with
  | nil => exact ⟨rfl,by decide⟩
  | append_singleton before c ih =>
    obtain ⟨first,buf⟩ := ih
    have comma : units [','] = [0x2C] := by decide
    have step := call_buf (before.foldl Obj.call Obj.new) c
    rw [List.foldl_append,List.foldl_cons,List.foldl_nil]
    refine ⟨by rw [step.1]; simp,?_⟩
    rw [step.2,first,List.map_append,List.map_singleton,separated_concat]
    cases before with
    | nil =>
      have empty : units Obj.new.buf = [0x7B] := by decide
      simp [empty]
    | cons other rest =>
      simp only [List.isEmpty_cons,Bool.false_eq_true,if_false,units_append,buf,comma]
      simp

theorem parse_done {calls : List Call} {members : List (Str × Json)} (inserts : List.Forall₂ Call.Member calls members) :
    parse (units (calls.foldl Obj.call Obj.new).done.1) = some (.obj members) := by
  have close : units ['}'] = [0x7D] := by decide
  have written : List.Forall₂ WritesMember (calls.map Call.memberText) members :=
    List.forall₂_map_left_iff.mpr (inserts.imp fun _ _ => Call.writesMember)
  rw [Obj.done]
  dsimp only
  rw [units_append,(calls_buf calls).2,close,List.cons_append]
  exact parse_object written

/-! ## Arrays -/

theorem units_listing {α : Type} {push : List Char → α → List Char} (appends : ∀ out it, push out it = out ++ push [] it)
    (items : List α) :
    units (listing push items) = 0x5B::(separated (items.map fun it => units (push [] it)) ++ [0x5D]) := by
  have opening : units ['['] = [0x5B] := by decide
  have close : units [']'] = [0x5D] := by decide
  have comma : units [','] = [0x2C] := by decide
  rw [listing,units_append,close,← List.cons_append]
  congr 1
  induction items using List.reverseRecOn with
  | nil => exact opening
  | append_singleton before it ih =>
    rw [List.zipIdx_append,List.foldl_append,List.zipIdx_singleton,List.foldl_cons,List.foldl_nil]
    dsimp only
    rw [appends,units_append,List.map_append,List.map_singleton,separated_concat]
    cases before with
    | nil => simp [opening]
    | cons other rest =>
      rw [if_pos (by simp),units_append,comma,ih]
      simp

theorem parse_arr {items : List (List Char)} {values : List Json}
    (valid : List.Forall₂ (fun it v => parse (units it) = some v) items values) :
    parse (units (arr items)) = some (.arr values) := by
  rw [arr,units_listing (fun _ _ => rfl)]
  exact parse_array (List.forall₂_map_left_iff.mpr valid)

theorem parse_strArr (items : List (List Char)) :
    parse (units (strArr items)) = some (.arr (items.map fun it => .str (units it))) := by
  rw [strArr,units_listing pushStr_eq]
  refine parse_array (List.forall₂_map_left_iff.mpr (List.forall₂_map_right_iff.mpr ?_))
  exact List.forall₂_same.mpr fun it _ => parse_pushStr it

/-- Every document parses, to the members in order or to the items, and no string that
another could be taken for is in it. -/
theorem documents_parse {calls : List Call} {members : List (Str × Json)} {items : List (List Char)} {values : List Json}
    (inserts : List.Forall₂ Call.Member calls members)
    (valid : List.Forall₂ (fun it v => parse (units it) = some v) items values) (strings : List (List Char)) :
    parse (units (calls.foldl Obj.call Obj.new).done.1) = some (.obj members) ∧
      parse (units (arr items)) = some (.arr values) ∧
      parse (units (strArr strings)) = some (.arr (strings.map fun s => .str (units s))) ∧
      ∀ a b : List Char, units a = units b → a = b :=
  ⟨parse_done inserts,parse_arr valid,parse_strArr strings,fun _ _ => units_injective⟩

/-- A line that tries to end its string and add a member, beside a nested array. -/
theorem documents_parse_line :
    parse (units ([Call.str "line".toList "\",\"admin\":true,\"x\":\"".toList,.raw "more".toList "[]".toList].foldl
        Obj.call Obj.new).done.1) =
      some (.obj [(Text.str "line",.str (Text.str "\",\"admin\":true,\"x\":\"")),(Text.str "more",.arr [])]) ∧
    parse (units (arr ["[]".toList])) = some (.arr [.arr []]) := by
  have empty : parse (units "[]".toList) = some (.arr []) := parse_arr (List.Forall₂.nil)
  have inserts : List.Forall₂ Call.Member [.str "line".toList "\",\"admin\":true,\"x\":\"".toList,
      .raw "more".toList "[]".toList]
      [(Text.str "line",.str (Text.str "\",\"admin\":true,\"x\":\"")),(Text.str "more",.arr [])] :=
    .cons ⟨rfl,rfl⟩ (.cons ⟨rfl,empty⟩ .nil)
  have valid : List.Forall₂ (fun it v => parse (units it) = some v) ["[]".toList] [.arr []] := .cons empty .nil
  have all := documents_parse inserts valid []
  exact ⟨all.1,all.2.1⟩

end FipsShield.Ui
