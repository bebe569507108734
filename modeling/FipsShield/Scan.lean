import FipsShield.Engine

/-! What the byte scan of the handshake finds: where it stops, that it may go on
from where an earlier scan ended, and the lines of the head it cuts off. -/
namespace FipsShield.Engine
open Text Head

theorem emptyLine_bounds {rest : Bytes} {n : Nat} (found : emptyLine rest = some n) :
    2 ≤ n ∧ n ≤ rest.length + 1 := by
  unfold emptyLine at found
  split at found <;> cases found <;> simp only [List.length_cons] <;> omega

theorem emptyLine_append {rest : Bytes} {n : Nat} (found : emptyLine rest = some n) (c : Bytes) :
    emptyLine (rest ++ c) = some n := by
  unfold emptyLine at found
  split at found <;> cases found <;> rfl

theorem emptyLine_none {rest : Bytes} (two : 2 ≤ rest.length) (c : Bytes) :
    emptyLine (rest ++ c) = emptyLine rest := by
  match rest, two with
  | first::second::others, _ =>
    cases found : emptyLine (first::second::others) with
    | some n => exact emptyLine_append found c
    | none =>
      unfold emptyLine at found ⊢
      split at found
      · contradiction
      · contradiction
      · next single double =>
        simp only [List.cons_append]
        split
        · next tail same => exact absurd (by rw [(List.cons.inj same).1]) (single (second::others))
        · next tail same =>
          obtain ⟨cr,more⟩ := List.cons.inj same
          exact absurd (by rw [cr,(List.cons.inj more).1]) (double others)
        · rfl

theorem blockEnd_other (i : Nat) {byte : UInt8} (other : byte ≠ 0x0A) (rest : Bytes) :
    blockEnd i (byte::rest) = blockEnd (i + 1) rest := by
  simp only [blockEnd,if_pos other]

theorem blockEnd_here {i n : Nat} {rest : Bytes} (found : emptyLine rest = some n) :
    blockEnd i (0x0A::rest) = some (i + n) := by
  simp [blockEnd,found]

theorem blockEnd_on {i : Nat} {rest : Bytes} (nothing : emptyLine rest = none) :
    blockEnd i (0x0A::rest) = blockEnd (i + 1) rest := by
  simp [blockEnd,nothing]

theorem blockEnd_bounds {i stop : Nat} {b : Bytes} (found : blockEnd i b = some stop) :
    i + 2 ≤ stop ∧ stop ≤ i + b.length := by
  induction b generalizing i with
  | nil => contradiction
  | cons byte rest ih =>
    rw [List.length_cons]
    by_cases lf : byte = 0x0A
    · subst lf
      cases empty : emptyLine rest with
      | some n =>
        have bounds := emptyLine_bounds empty
        rw [blockEnd_here empty] at found
        cases found
        omega
      | none =>
        have bounds := ih ((blockEnd_on empty).symm.trans found)
        omega
    · have bounds := ih ((blockEnd_other i lf rest).symm.trans found)
      omega

theorem blockEnd_append {i stop : Nat} {b : Bytes} (found : blockEnd i b = some stop) (c : Bytes) :
    blockEnd i (b ++ c) = some stop := by
  induction b generalizing i with
  | nil => contradiction
  | cons byte rest ih =>
    rw [List.cons_append]
    by_cases lf : byte = 0x0A
    · subst lf
      cases empty : emptyLine rest with
      | some n => rw [blockEnd_here (emptyLine_append empty c),← found,blockEnd_here empty]
      | none =>
        have later := (blockEnd_on empty).symm.trans found
        have two : 2 ≤ rest.length := by
          have bounds := blockEnd_bounds later
          omega
        rw [blockEnd_on ((emptyLine_none two c).trans empty)]
        exact ih later
    · rw [blockEnd_other i lf]
      exact ih ((blockEnd_other i lf rest).symm.trans found)

/-- Bytes at which no terminator starts, given the two that follow them, are passed over. -/
theorem blockEnd_skip {i : Nat} {b c : Bytes} (two : 2 ≤ c.length)
    (nothing : blockEnd i (b ++ c) = none) (d : Bytes) :
    blockEnd i (b ++ (c ++ d)) = blockEnd (i + b.length) (c ++ d) := by
  induction b generalizing i with
  | nil => rfl
  | cons byte rest ih =>
    have shift : i + (byte::rest).length = i + 1 + rest.length := by
      rw [List.length_cons]
      omega
    rw [shift,List.cons_append]
    rw [List.cons_append] at nothing
    by_cases lf : byte = 0x0A
    · subst lf
      cases empty : emptyLine (rest ++ c) with
      | some n =>
        rw [blockEnd_here empty] at nothing
        contradiction
      | none =>
        have longer : 2 ≤ (rest ++ c).length := by
          rw [List.length_append]
          omega
        have still : emptyLine (rest ++ (c ++ d)) = none := by
          rw [← List.append_assoc,emptyLine_none longer,empty]
        rw [blockEnd_on still]
        exact ih ((blockEnd_on empty).symm.trans nothing)
    · rw [blockEnd_other i lf]
      exact ih ((blockEnd_other i lf _).symm.trans nothing)

theorem headerBlockEnd_resume {b : Bytes} (nothing : headerBlockEnd b 0 = none) (c : Bytes) :
    headerBlockEnd (b ++ c) (b.length - 2) = headerBlockEnd (b ++ c) 0 := by
  by_cases short : b.length < 2
  · have zero : ((b.length : Int) - 2).toNat = 0 := by omega
    rw [headerBlockEnd,zero]
    rfl
  · have start : ((b.length : Int) - 2).toNat = b.length - 2 := by omega
    have size : (b.take (b.length - 2)).length = b.length - 2 := by
      rw [List.length_take]
      omega
    have two : 2 ≤ (b.drop (b.length - 2)).length := by
      rw [List.length_drop]
      omega
    have whole : blockEnd 0 (b.take (b.length - 2) ++ b.drop (b.length - 2)) = none := by
      rw [List.take_append_drop]
      exact nothing
    have skipped := blockEnd_skip two whole c
    rw [size,Nat.zero_add,← List.append_assoc,List.take_append_drop] at skipped
    rw [headerBlockEnd,start,List.drop_append_of_le_length (by omega)]
    exact skipped.symm

/-- The head that is cut off a stream: seen whole and free of bare line feeds. -/
def CutHead (stream head : Bytes) : Prop :=
  ∃ stop, headerBlockEnd stream 0 = some stop ∧ hasBareLf stream stop = false ∧
    head = stream.take stop

theorem CutHead.append {stream head : Bytes} (cut : CutHead stream head) (c : Bytes) :
    CutHead (stream ++ c) head := by
  obtain ⟨stop,found,clean,rfl⟩ := cut
  have bounds := blockEnd_bounds found
  have same : (stream ++ c).take stop = stream.take stop :=
    List.take_append_of_le_length (by simpa using bounds.2)
  refine ⟨stop,blockEnd_append found c,?_,same.symm⟩
  rw [hasBareLf,same]
  exact clean

private theorem blockEnd_feed {i stop : Nat} {b : Bytes} (found : blockEnd i b = some stop) :
    (0x0A : UInt8) ∈ b.take (stop - i) := by
  induction b generalizing i with
  | nil => contradiction
  | cons byte rest ih =>
    have bounds := blockEnd_bounds found
    have next : stop - i = stop - (i + 1) + 1 := by omega
    rw [next,List.take_succ_cons]
    by_cases lf : byte = 0x0A
    · rw [lf]
      exact List.mem_cons_self
    · exact List.mem_cons_of_mem byte (ih ((blockEnd_other i lf rest).symm.trans found))

theorem CutHead.feed {stream head : Bytes} (cut : CutHead stream head) : (0x0A : UInt8) ∈ head := by
  obtain ⟨stop,found,_,rfl⟩ := cut
  exact blockEnd_feed found

/-- What a scan cuts off when no line feed in it is bare: a line, then filled lines,
then an empty one; after a carriage return the first line may end at once. -/
theorem scanned_lines {i stop : Nat} {before : UInt8} {b : Bytes} (found : blockEnd i b = some stop)
    (clean : bareLf before (b.take (stop - i)) = false) :
    (∃ (line : Bytes) (lines : List Bytes), (0x0A : UInt8) ∉ line ∧ (∀ l ∈ lines, Filled l) ∧
        b.take (stop - i) = line ++ (crlf ++ block lines)) ∨
      (before = 0x0D ∧ ∃ lines : List Bytes, (∀ l ∈ lines, Filled l) ∧
        b.take (stop - i) = 0x0A::block lines) := by
  induction b generalizing i before with
  | nil => contradiction
  | cons byte rest ih =>
    have bounds := blockEnd_bounds found
    have next : stop - i = stop - (i + 1) + 1 := by omega
    rw [next,List.take_succ_cons] at clean ⊢
    simp only [bareLf,Bool.or_eq_false_iff] at clean
    obtain ⟨here,later⟩ := clean
    by_cases lf : byte = 0x0A
    · subst lf
      have cr : before = 0x0D := by simpa using here
      refine Or.inr ⟨cr,?_⟩
      cases empty : emptyLine rest with
      | some n =>
        rw [blockEnd_here empty] at found
        cases found
        unfold emptyLine at empty
        split at empty
        · cases empty
          have one : i + 2 - (i + 1) = 1 := by omega
          simp [one,bareLf] at later
        · cases empty
          have two : i + 3 - (i + 1) = 2 := by omega
          exact ⟨[],by simp,by simp [two,block,crlf]⟩
        · contradiction
      | none =>
        rcases ih ((blockEnd_on empty).symm.trans found) later with
          ⟨line,lines,free,filled,same⟩ | ⟨impossible,_⟩
        · have present : line ≠ [] := by
            intro nothing
            rw [nothing,List.nil_append] at same
            have start : emptyLine (rest.take (stop - (i + 1))) = some 3 := by
              rw [same]
              rfl
            have whole := emptyLine_append start (rest.drop (stop - (i + 1)))
            rw [List.take_append_drop,empty] at whole
            contradiction
          refine ⟨line::lines,?_,by simp [same,block]⟩
          intro l member
          rcases List.mem_cons.mp member with rfl | inside
          · exact ⟨present,free⟩
          · exact filled l inside
        · simp at impossible
    · rcases ih ((blockEnd_other i lf rest).symm.trans found) later with
        ⟨line,lines,free,filled,same⟩ | ⟨cr,lines,filled,same⟩
      · refine Or.inl ⟨byte::line,lines,?_,filled,by simp [same]⟩
        intro member
        rcases List.mem_cons.mp member with here | inside
        · exact lf here.symm
        · exact free inside
      · refine Or.inl ⟨[],lines,by simp,filled,?_⟩
        rw [cr,same]
        rfl

theorem CutHead.ends {stream head : Bytes} (cut : CutHead stream head) : ∃ line, head = line ++ [0x0A] := by
  obtain ⟨stop,found,clean,rfl⟩ := cut
  rcases scanned_lines (i := 0) found clean with ⟨line,lines,_,_,same⟩ | ⟨impossible,_⟩
  · refine ⟨line ++ (crlf ++ (lines.flatMap (· ++ crlf) ++ [0x0D])),?_⟩
    have whole : stream.take stop = line ++ (crlf ++ block lines) := same
    rw [whole]
    simp [block,crlf]
  · simp at impossible

/-- A head that is cut off clean is a request head unless the stream starts with two
empty lines. -/
theorem requestHead_iff {stream head : Bytes} (cut : CutHead stream head) :
    RequestHead head ↔ ¬ crlf ++ crlf <+: stream := by
  obtain ⟨stop,found,clean,rfl⟩ := cut
  constructor
  · intro request blank
    obtain ⟨rest,rfl⟩ := blank
    cases found
    have length := requestHead_length request
    simp [crlf] at length
  · intro started
    rcases scanned_lines (i := 0) found clean with ⟨line,lines,free,filled,same⟩ | ⟨impossible,_⟩
    · cases line with
      | nil =>
        cases lines with
        | nil =>
          have blank : stream.take stop = crlf ++ crlf := by simpa [block] using same
          exact absurd (blank ▸ List.take_prefix stop stream) started
        | cons first others => exact ⟨1,first::others,by simp,filled,by simpa using same⟩
      | cons byte others =>
        refine ⟨0,(byte::others)::lines,by simp,?_,by simpa [block] using same⟩
        intro l member
        rcases List.mem_cons.mp member with rfl | inside
        · exact ⟨by simp,free⟩
        · exact filled l inside
    · simp at impossible

/-! ## The upgrade pattern and the lines of the head -/

theorem upgradeHere_crlf (rest : Str) :
    upgradeHere (0x0D::0x0A::rest) = leadsWith "websocket" rest := by
  have name : str "\r\nupgrade:" = 0x0D::0x0A::str "upgrade:" := by decide
  have cr : lower 0x0D = 0x0D := by decide
  have lf : lower 0x0A = 0x0A := by decide
  simp [upgradeHere,leadsWith,name,cr,lf,List.isPrefixOf]

private theorem lower_eq {u c : UInt16} (small : c.toNat < 0x41) (same : lower u = c) : u = c := by
  unfold lower at same
  split_ifs at same with capital
  · have shifted := congrArg UInt16.toNat same
    rw [UInt16.le_iff_toNat_le,UInt16.le_iff_toNat_le] at capital
    simp only [UInt16.toNat_add,UInt16.reduceToNat] at shifted capital
    omega
  · exact same

theorem upgradeHere_other {u : UInt16} {rest : Str} (apart : ∀ tail, u = 0x0D → rest ≠ 0x0A::tail) :
    upgradeHere (u::rest) = false := by
  have name : str "\r\nupgrade:" = 0x0D::0x0A::str "upgrade:" := by decide
  simp only [upgradeHere,name,Bool.and_eq_false_iff]
  apply Or.inl
  by_contra starts
  rw [Bool.not_eq_false,List.isPrefixOf_iff_prefix,List.map_cons,List.cons_prefix_cons] at starts
  have cr := lower_eq (by decide) starts.1.symm
  cases rest with
  | nil => simp at starts
  | cons v tail =>
    rw [List.map_cons,List.cons_prefix_cons] at starts
    have lf := lower_eq (by decide) starts.2.1.symm
    exact apart tail cr (by rw [lf])

theorem leadsWith_first {text line : Str} {others : List Str} (same : lines text = line::others) :
    leadsWith "websocket" text = leadsWith "websocket" line := by
  obtain ⟨first,later,read,shape⟩ := lines_split text
  rw [same] at read
  obtain ⟨rfl,rfl⟩ := List.cons.inj read
  rcases shape with rfl | ⟨tail,rfl⟩
  · rfl
  · exact leadsWith_append "websocket" (by decide) line tail

/-- The pattern matches a head if and only if a line after the first leads with it. -/
theorem upgradeTest_iff (head : Str) :
    upgradeTest head = true ↔ ∃ line ∈ (lines head).tail, leadsWith "websocket" line = true := by
  fun_induction lines head with
  | case1 rest ih =>
    obtain ⟨line,others,read,_⟩ := lines_split rest
    have feed : upgradeHere (0x0A::rest) = false := upgradeHere_other (by simp)
    have test : upgradeTest (0x0D::0x0A::rest) = (leadsWith "websocket" rest || upgradeTest rest) := by
      simp [upgradeTest,upgradeHere_crlf,feed]
    rw [test,Bool.or_eq_true,ih,leadsWith_first read,read]
    simp
  | case2 u rest apart line others found ih =>
    have here : upgradeHere (u::rest) = false := by
      apply upgradeHere_other
      rintro tail rfl rfl
      exact apart tail rfl rfl
    have test : upgradeTest (u::rest) = upgradeTest rest := by
      simp [upgradeTest,here]
    rw [test,ih,found]
    rfl
  | case3 u rest apart none ih =>
    obtain ⟨line,others,read,_⟩ := lines_split rest
    simp [none] at read
  | case4 => decide

/-! ## The cursor -/

/-- `buf[i]`; below zero and beyond the end there is none. -/
def indexed (buf : Bytes) (i : Int) : Option UInt8 := if 0 ≤ i then buf[i.toNat]? else none

/-- The loop of `headerBlockEnd`, index by index. -/
def headerBlockLoop (buf : Bytes) (i : Int) : Option Nat :=
  if i + 1 < buf.length then
    if indexed buf i ≠ some 0x0A then headerBlockLoop buf (i + 1)
    else if indexed buf (i + 1) = some 0x0A then some (i + 2).toNat
    else if indexed buf (i + 1) = some 0x0D ∧ i + 2 < buf.length ∧ indexed buf (i + 2) = some 0x0A then some (i + 3).toNat
    else headerBlockLoop buf (i + 1)
  else none
termination_by (buf.length - i).toNat

theorem indexed_drop {buf rest : Bytes} {n : Nat} (dropped : buf.drop n = rest) (k : Nat) :
    indexed buf (n + k) = rest[k]? := by
  have index : ((n : Int) + k).toNat = n + k := by omega
  rw [indexed,if_pos (by omega),index,← dropped,List.getElem?_drop]

theorem emptyLine_other {second : UInt8} {others : Bytes} (lf : second ≠ 0x0A)
    (cr : ¬ (second = 0x0D ∧ others.head? = some 0x0A)) : emptyLine (second::others) = none := by
  unfold emptyLine
  split
  · next same => exact absurd (List.cons.inj same).1 lf
  · next same =>
    obtain ⟨rfl,rfl⟩ := List.cons.inj same
    exact absurd ⟨rfl,rfl⟩ cr
  · rfl

theorem headerBlockLoop_nat (buf : Bytes) (n : Nat) : headerBlockLoop buf n = blockEnd n (buf.drop n) := by
  induction size : buf.length - n generalizing n with
  | zero =>
    have none : buf.drop n = [] := List.drop_eq_nil_of_le (by omega)
    rw [none,headerBlockLoop,if_neg (by omega)]
    rfl
  | succ left ih =>
    have later := ih (n + 1) (by omega)
    obtain ⟨byte,rest,here⟩ := List.exists_cons_of_ne_nil (List.drop_eq_nil_iff.not.mpr (show ¬ buf.length ≤ n by omega))
    have after : buf.drop (n + 1) = rest := by rw [← List.tail_drop,here,List.tail_cons]
    have total : (buf.length : Int) = n + 1 + rest.length := by
      have sizes := congrArg List.length here
      rw [List.length_drop,List.length_cons] at sizes
      omega
    have at0 := indexed_drop here 0
    have at1 := indexed_drop here 1
    have at2 := indexed_drop here 2
    push_cast at later at0 at1 at2
    rw [after] at later
    rw [add_zero] at at0
    rw [headerBlockLoop,here,at0,at1,at2,later,total]
    match rest with
    | [] =>
      rw [if_neg (by simp)]
      by_cases lf : byte = 0x0A <;> simp [blockEnd,emptyLine,lf]
    | second::others =>
      rw [if_pos (by simp)]
      by_cases lf : byte = 0x0A
      · subst lf
        by_cases twice : second = 0x0A
        · subst twice
          rw [@blockEnd_here n 2 (0x0A::others) rfl]
          have index : ((n : Int) + 2).toNat = n + 2 := by omega
          simp [index]
        · by_cases cr : second = 0x0D ∧ others.head? = some 0x0A
          · obtain ⟨rfl,feed⟩ := cr
            obtain ⟨tail,rfl⟩ := List.head?_eq_some_iff.mp feed
            rw [@blockEnd_here n 3 (0x0D::0x0A::tail) rfl]
            have index : ((n : Int) + 3).toNat = n + 3 := by omega
            have inside : (n : Int) + 2 < n + 1 + ((0x0D::0x0A::tail : Bytes).length : Nat) := by
              simp only [List.length_cons]
              omega
            rw [if_neg (by simp),if_neg (by simp),if_pos ⟨by simp,inside,by simp⟩,index]
          · rw [blockEnd_on (emptyLine_other twice cr)]
            cases others <;> simp_all
      · rw [blockEnd_other n lf]
        simp [lf]

/-- No line feed is below zero. -/
theorem headerBlockLoop_eq (buf : Bytes) (i : Int) : headerBlockLoop buf i = headerBlockEnd buf i := by
  induction below : (-i).toNat generalizing i with
  | zero =>
    obtain ⟨n,rfl⟩ := Int.eq_ofNat_of_zero_le (show 0 ≤ i by omega)
    exact headerBlockLoop_nat buf n
  | succ left ih =>
    have start : i.toNat = (i + 1).toNat := by omega
    have skipped : headerBlockEnd buf i = headerBlockEnd buf (i + 1) := by rw [headerBlockEnd,start,headerBlockEnd]
    have hole : indexed buf i = none := if_neg (by omega)
    rw [skipped,headerBlockLoop,hole]
    by_cases more : i + 1 < buf.length
    · rw [if_pos more,if_pos (by simp)]
      exact ih (i + 1) (by omega)
    · have empty : buf = [] := List.eq_nil_of_length_eq_zero (by omega)
      rw [if_neg more,empty,headerBlockEnd,List.drop_nil]
      rfl

/-- The reads of a handshake, one after another, each scanned on from two bytes before the length
that was scanned: at which of them a header block ends, and where. -/
def resumed (st : St) : List Bytes → Option (Nat × Nat)
  | [] => none
  | data::rest =>
    match headerBlockEnd (st.hs ++ data) (st.hsScanned - 2) with
    | some stop => some (0,stop)
    | none => (resumed (scanned st data) rest).map fun found => (found.1 + 1,found.2)

/-- The bytes of the first `n` reads. -/
def soFar (reads : List Bytes) (n : Nat) : Bytes := (reads.take n).flatten

theorem resumed_iff {st : St} (nothing : headerBlockEnd st.hs 0 = none) (cursor : st.hsScanned = st.hs.length)
    (reads : List Bytes) (k stop : Nat) : resumed st reads = some (k,stop) ↔
      k < reads.length ∧ headerBlockEnd (st.hs ++ soFar reads (k + 1)) 0 = some stop ∧
        ∀ j < k, headerBlockEnd (st.hs ++ soFar reads (j + 1)) 0 = none := by
  induction reads generalizing st k with
  | nil => simp [resumed]
  | cons data rest ih =>
    have whole : headerBlockEnd (st.hs ++ data) (st.hsScanned - 2) = headerBlockEnd (st.hs ++ data) 0 := by
      rw [cursor]
      exact headerBlockEnd_resume nothing data
    have first : st.hs ++ soFar (data::rest) 1 = st.hs ++ data := by simp [soFar]
    have later (j : Nat) : st.hs ++ soFar (data::rest) (j + 1) = (scanned st data).hs ++ soFar rest j := by
      simp [soFar,scanned]
    rw [resumed,whole]
    cases found : headerBlockEnd (st.hs ++ data) 0 with
    | some n =>
      cases k with
      | zero => simp [first,found]
      | succ k =>
        refine iff_of_false (by simp) ?_
        rintro ⟨_,_,none⟩
        have missing := none 0 k.succ_pos
        rw [first,found] at missing
        cases missing
    | none =>
      cases k with
      | zero => simp [first,found]
      | succ k =>
        have tail := @ih (scanned st data) found rfl k
        simp only [Option.map_eq_some_iff,Prod.mk.injEq,Prod.exists]
        constructor
        · rintro ⟨k',stop',read,same,rfl⟩
          obtain rfl := Nat.succ.inj same
          obtain ⟨inside,ends,none⟩ := tail.mp read
          refine ⟨Nat.succ_lt_succ inside,(later _).symm ▸ ends,fun j below => ?_⟩
          cases j with
          | zero => rw [first,found]
          | succ j => exact (later _).symm ▸ none j (Nat.lt_of_succ_lt_succ below)
        · rintro ⟨inside,ends,none⟩
          refine ⟨k,stop,tail.mpr ⟨Nat.lt_of_succ_lt_succ inside,later _ ▸ ends,fun j below => ?_⟩,rfl,rfl⟩
          exact later _ ▸ none (j + 1) (Nat.succ_lt_succ below)

/-- However a stream is cut into reads, the scan that goes on two bytes before the end of the
last one stops at the first read at which a scan of the whole buffer does, and at the same byte. -/
theorem scan_resumes (env : Env) (cfg : Cfg) (reads : List Bytes) :
    (∀ k stop, resumed (filter env cfg) reads = some (k,stop) ↔
      k < reads.length ∧ headerBlockEnd (soFar reads (k + 1)) 0 = some stop ∧
        ∀ j < k, headerBlockEnd (soFar reads (j + 1)) 0 = none) ∧
      (resumed (filter env cfg) reads = none ↔ ∀ k < reads.length, headerBlockEnd (soFar reads (k + 1)) 0 = none) := by
  have found := @resumed_iff (filter env cfg) rfl rfl reads
  refine ⟨found,fun none k inside => ?_,fun all => ?_⟩
  · induction k using Nat.strongRecOn with
    | ind k ih =>
      by_contra some
      obtain ⟨stop,ends⟩ := Option.ne_none_iff_exists'.mp some
      have stops := (found k stop).mpr ⟨inside,ends,fun j below => ih j below (below.trans inside)⟩
      rw [none] at stops
      cases stops
  · by_contra some
    obtain ⟨⟨k,stop⟩,stops⟩ := Option.ne_none_iff_exists'.mp some
    obtain ⟨inside,ends,_⟩ := (found k stop).mp stops
    have nothing : headerBlockEnd (soFar reads (k + 1)) 0 = Option.none := all k inside
    have ends' : headerBlockEnd (soFar reads (k + 1)) 0 = Option.some stop := ends
    rw [nothing] at ends'
    cases ends'

end FipsShield.Engine
