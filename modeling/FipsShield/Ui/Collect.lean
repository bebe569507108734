import FipsShield.Ui.Tail
import FipsShield.Guard.Commands
import FipsShield.Library.Decimal

/-! What the dashboard reads of the commands it runs (`ui/src/collect.rs`): the counters that
`fips-guard stats` prints, and the configuration that `shield-config show --porcelain` prints. -/
namespace FipsShield.Ui
open Text Lines Banlist Config Numeral

/-! ## Running a command -/

inductive ExitStatus where
  | code (n : Nat)
  | signal (text : Str)
  deriving DecidableEq

/-- An exit status as it is displayed. -/
def ExitStatus.shown : ExitStatus → Str
  | .code n => str "exit status: " ++ natText n
  | .signal text => str "signal: " ++ text

structure Output where
  status : ExitStatus
  stdout : Bytes
  stderr : Bytes

/-- `run`: what a command that succeeds prints, and otherwise the first line of its complaint. -/
def run (bin : Str) : Except Str Output → Except Str Str
  | .error e => .error (bin ++ str ": " ++ e)
  | .ok out =>
    if out.status = .code 0 then .ok (fromUtf8Lossy out.stdout)
    else
      let first := ((rustLines (fromUtf8Lossy out.stderr)).find? fun l => !(trimWhite l).isEmpty).getD []
      if first = [] then .error (bin ++ str " exited " ++ out.status.shown) else .error (bin ++ str ": " ++ first)

theorem run_paired {s : Str} (bin : Str) (stderr : Bytes) (paired : Paired s) :
    run bin (.ok ⟨.code 0,fromString s,stderr⟩) = .ok s := by
  rw [run,if_pos rfl,fromUtf8Lossy,toString_fromString paired]

/-! ## The counters -/

def println (s : Str) : Str := s ++ [0x0A]

/-- What `cmd_stats` prints. -/
def statsText (report : Guard.Report) : Str :=
  let sum (slot : Guard.Slot) := natText (report.counters slot).toNat
  println (str "passed             " ++ sum .passed) ++
  println (str "dropped (ban)      " ++ sum .droppedBan) ++
  println (str "dropped (throttle) " ++ sum .droppedThrottle) ++
  println (str "not ipv6           " ++ sum .notIpv6) ++
  println (str "parse failed       " ++ sum .parseFailed) ++
  (if report.config.ratePps > 0 then
    println (str "throttle           " ++ natText report.config.ratePps.toNat ++ str " pkt/s per source, burst " ++
      natText report.config.burstPkts.toNat)
  else println (str "throttle           disabled")) ++
  println (str "bans               " ++ natText report.active ++ str "/" ++ natText report.capacity ++ str " active (" ++
    natText report.stale ++ str " expired reclaimed)")

/-- `str::find` of a text. -/
def find (p : Str) : Str → Option Nat
  | [] => if p.isEmpty then some 0 else none
  | u::rest => if p.isPrefixOf (u::rest) then some 0 else (find p rest).map (· + 1)

/-- The label and the value of a line, which may have spaces but not two of them. -/
def statLine (l : Str) : Option (Str × Str) :=
  let l := Config.trimEnd l
  (find (str "  ") l).map fun idx => (trimWhite (l.take idx),trimWhite (l.drop idx))

/-- `guard_stats`, of a path that may not be UTF-8. -/
def guardStats (fipsGuard : Option Str) (spawned : Except Str Output) : Except Str (List (Str × Str)) :=
  match fipsGuard with
  | none => .error (str "fips-guard path is not valid UTF-8")
  | some bin => (run bin spawned).map fun out => (rustLines out).filterMap statLine

/-- The labels and values that `cmd_stats` prints, line by line. -/
def statRows (report : Guard.Report) : List (Str × Str) :=
  let sum (slot : Guard.Slot) := natText (report.counters slot).toNat
  [(str "passed",sum .passed),(str "dropped (ban)",sum .droppedBan),(str "dropped (throttle)",sum .droppedThrottle),
    (str "not ipv6",sum .notIpv6),(str "parse failed",sum .parseFailed),
    (str "throttle",if report.config.ratePps > 0 then natText report.config.ratePps.toNat ++
      str " pkt/s per source, burst " ++ natText report.config.burstPkts.toNat else str "disabled"),
    (str "bans",natText report.active ++ str "/" ++ natText report.capacity ++ str " active (" ++ natText report.stale ++
      str " expired reclaimed)")]

/-! ## Columns -/

section Columns
variable {label value : Str}

def column (label value : Str) : Str := label ++ List.replicate (19 - label.length) 0x20 ++ value

theorem statsText_rows (report : Guard.Report) :
    statsText report = written 0x0A ((statRows report).map fun row => column row.1 row.2) := by
  have passed : str "passed             " = str "passed" ++ List.replicate (19 - (str "passed").length) 0x20 := by decide
  have ban : str "dropped (ban)      " = str "dropped (ban)" ++ List.replicate (19 - (str "dropped (ban)").length) 0x20 := by
    decide
  have limit : str "dropped (throttle) " =
      str "dropped (throttle)" ++ List.replicate (19 - (str "dropped (throttle)").length) 0x20 := by decide
  have other : str "not ipv6           " = str "not ipv6" ++ List.replicate (19 - (str "not ipv6").length) 0x20 := by decide
  have failed : str "parse failed       " = str "parse failed" ++ List.replicate (19 - (str "parse failed").length) 0x20 := by
    decide
  have rate : str "throttle           " = str "throttle" ++ List.replicate (19 - (str "throttle").length) 0x20 := by decide
  have none : str "throttle           disabled" = str "throttle           " ++ str "disabled" := by decide
  have bans : str "bans               " = str "bans" ++ List.replicate (19 - (str "bans").length) 0x20 := by decide
  rw [statsText,passed,ban,limit,other,failed,none,rate,bans,statRows]
  split_ifs <;> simp only [println,column,written,List.map_cons,List.map_nil,List.flatMap_cons,List.flatMap_nil,
    List.append_assoc,List.append_nil]

def isPrintable (u : UInt16) : Bool := 0x20 ≤ u && u < 0x7F

theorem isPrintable_iff {u : UInt16} : isPrintable u = true ↔ 0x20 ≤ u.toNat ∧ u.toNat < 0x7F := by
  simp only [isPrintable,Bool.and_eq_true,decide_eq_true_eq,UInt16.le_iff_toNat_le,UInt16.lt_iff_toNat_lt,UInt16.reduceToNat]

/-- A text that can be printed and has no space at either end. -/
structure Cell (s : Str) : Prop where
  printable : s.all isPrintable = true
  filled : s ≠ []
  first : s.head? ≠ some 0x20
  last : s.getLast? ≠ some 0x20

theorem cell_iff {s : Str} : Cell s ↔
    s.all isPrintable = true ∧ s ≠ [] ∧ s.head? ≠ some 0x20 ∧ s.getLast? ≠ some 0x20 :=
  ⟨fun cell => ⟨cell.printable,cell.filled,cell.first,cell.last⟩,fun ⟨printable,filled,first,last⟩ =>
    ⟨printable,filled,first,last⟩⟩

instance (s : Str) : Decidable (Cell s) := decidable_of_iff _ cell_iff.symm

theorem Cell.between {a b c : Str} (left : Cell a) (printable : b.all isPrintable = true) (right : Cell c) :
    Cell (a ++ b ++ c) where
  printable := by rw [List.all_append,List.all_append,left.printable,printable,right.printable]; rfl
  filled := by simp [left.filled]
  first := by rw [List.append_assoc,List.head?_append_of_ne_nil _ left.filled]; exact left.first
  last := by rw [List.getLast?_append_of_ne_nil _ right.filled]; exact right.last

theorem natText_cell (n : Nat) : Cell (natText n) := by
  have digits := natText_digits n
  have other {u : UInt16} (digit : isDigit u = true) : u ≠ 0x20 := by rintro rfl; cases digit
  refine ⟨List.all_eq_true.mpr fun u member => ?_,natText_ne_nil n,fun same => ?_,fun same => ?_⟩
  · have digit := digits u member
    simp only [isDigit,Bool.and_eq_true,decide_eq_true_eq,UInt16.le_iff_toNat_le,UInt16.reduceToNat] at digit
    exact isPrintable_iff.mpr (by omega)
  · exact other (digits _ (List.mem_of_head? same)) rfl
  · exact other (digits _ (List.mem_of_getLast? same)) rfl

section Cells
variable (cell : Cell value)
include cell

theorem Cell.ascii : ∀ u ∈ value, 0x20 ≤ u.toNat ∧ u.toNat < 0x7F := fun u member =>
  isPrintable_iff.mp (List.all_eq_true.mp cell.printable u member)

theorem Cell.black : (∀ u ∈ value.head?, isWhite u = false) ∧ ∀ u ∈ value.getLast?, isWhite u = false := by
  have black (u : UInt16) (member : u ∈ value) (other : u ≠ 0x20) : isWhite u = false := by
    have bounds := cell.ascii u member
    have differs : u.toNat ≠ 0x20 := fun same => other (UInt16.toNat_inj.mp same)
    have plain : ∀ n < 0x7F, 0x20 < n → isWhite (UInt16.ofNat n) = false := by decide
    have own := plain u.toNat bounds.2 (by omega)
    rwa [UInt16.ofNat_toNat] at own
  exact ⟨fun u member => black u (List.mem_of_head? member) fun same => cell.first (same ▸ member),
    fun u member => black u (List.mem_of_getLast? member) fun same => cell.last (same ▸ member)⟩

end Cells

theorem find_first {label : Str} (alone : ¬ str "  " <:+: label ++ [0x20]) (rest : Str) :
    find (str "  ") (label ++ 0x20::0x20::rest) = some label.length := by
  induction label with
  | nil => rfl
  | cons u l ih =>
    have shorter : ¬ str "  " <:+: l ++ [0x20] := fun inside => alone (inside.trans (List.suffix_cons u _).isInfix)
    have other : (str "  ").isPrefixOf (u::(l ++ 0x20::0x20::rest)) = false := by
      refine Bool.eq_false_iff.mpr fun starts => alone (List.IsPrefix.isInfix ?_)
      have line : u::(l ++ 0x20::0x20::rest) = (u::l ++ [0x20]) ++ 0x20::rest := by simp
      have whole := List.isPrefixOf_iff_prefix.mp starts
      refine List.prefix_of_prefix_length_le whole ?_ ?_
      · rw [line]
        exact List.prefix_append _ _
      · have two : (str "  ").length = 2 := by decide
        rw [two]
        simp
    rw [List.cons_append,find,other,if_neg (by decide),ih shorter]
    rfl

theorem find_none {p s : Str} : find p s = none ↔ ¬ p <:+: s := by
  induction s with
  | nil => simp [find]
  | cons u rest ih =>
    rw [find,List.infix_cons_iff,← List.isPrefixOf_iff_prefix]
    split_ifs with starts
    · simp [starts]
    · simp [starts,ih]

theorem statLine_column (cell : Cell label) (cell' : Cell value) (alone : ¬ str "  " <:+: label ++ [0x20])
    (room : label.length < 18) : statLine (column label value) = some (label,value) := by
  obtain ⟨first,last⟩ := cell.black
  obtain ⟨first',last'⟩ := cell'.black
  obtain ⟨m,wide⟩ : ∃ m, 19 - label.length = m + 2 := ⟨17 - label.length,by omega⟩
  have line : column label value = label ++ 0x20::0x20::(List.replicate m 0x20 ++ value) := by
    rw [column,wide,List.replicate_succ,List.replicate_succ]
    simp
  have white : ∀ u ∈ 0x20::0x20::List.replicate m 0x20, isWhite u = true := by
    intro u member
    simp only [List.mem_cons,List.mem_replicate] at member
    rcases member with rfl | rfl | ⟨_,rfl⟩ <;> rfl
  have ends : ∀ u ∈ (column label value).getLast?, isWhite u = false := by
    rwa [column,List.getLast?_append_of_ne_nil _ cell'.filled]
  have own := trimWhite_inner (a := []) (b := []) (fun u member => by cases member) (fun u member => by cases member)
    cell.filled first last
  have other := trimWhite_inner (b := []) white (fun u member => by cases member) cell'.filled first' last'
  simp only [List.nil_append,List.append_nil,List.cons_append] at own other
  rw [statLine,trimEnd_black ends,line,find_first alone,Option.map_some,List.take_left,List.drop_left,own,other]

theorem infix_append_free {p s t : Str} {u : UInt16} (last : p.getLast? = some u) (free : u ∉ t) (inside : p <:+: s ++ t) :
    p <:+: s := by
  induction t using List.reverseRecOn with
  | nil => rwa [List.append_nil] at inside
  | append_singleton t v ih =>
    rw [← List.append_assoc,List.infix_concat_iff] at inside
    rcases inside with ⟨front,same⟩ | inside
    · have filled : p ≠ [] := fun empty => by cases empty ▸ last
      have ends := congrArg List.getLast? same
      rw [List.getLast?_append_of_ne_nil _ filled,last,List.getLast?_concat] at ends
      exact absurd (by simp [Option.some.inj ends]) free
    · exact ih (fun member => free (List.mem_append_left _ member)) inside

end Columns

section Rows
variable {report : Guard.Report}

def statLabels : List Str :=
  [str "passed",str "dropped (ban)",str "dropped (throttle)",str "not ipv6",str "parse failed",str "throttle",str "bans"]

theorem statRows_label {row : Str × Str} (own : row ∈ statRows report) : row.1 ∈ statLabels :=
  List.mem_map_of_mem own

/-- Only one label leaves no room for two spaces. -/
theorem label_room : ∀ label ∈ statLabels, Cell label ∧
    (label.length < 18 ∧ ¬ str "  " <:+: label ++ [0x20] ∨ label = str "dropped (throttle)") := by
  decide

theorem statRows_cell : ∀ row ∈ statRows report, Cell row.2 := by
  have rate : Cell (if report.config.ratePps > 0 then natText report.config.ratePps.toNat ++
      str " pkt/s per source, burst " ++ natText report.config.burstPkts.toNat else str "disabled") := by
    split_ifs
    · exact (natText_cell _).between (by decide) (natText_cell _)
    · decide
  have bans : Cell (natText report.active ++ str "/" ++ natText report.capacity ++ str " active (" ++ natText report.stale ++
      str " expired reclaimed)") := by
    have tail : str " expired reclaimed)" = str " expired reclaimed" ++ str ")" := by decide
    rw [tail,← List.append_assoc]
    have share : Cell (natText report.active ++ str "/" ++ natText report.capacity) :=
      (natText_cell report.active).between (by decide) (natText_cell report.capacity)
    have counts : Cell (natText report.active ++ str "/" ++ natText report.capacity ++ str " active (" ++ natText report.stale) :=
      share.between (by decide) (natText_cell report.stale)
    exact counts.between (by decide) (by decide)
  intro row own
  rw [statRows] at own
  simp only [List.mem_cons,List.not_mem_nil,or_false] at own
  rcases own with rfl | rfl | rfl | rfl | rfl | rfl | rfl
  · exact natText_cell _
  · exact natText_cell _
  · exact natText_cell _
  · exact natText_cell _
  · exact natText_cell _
  · exact rate
  · exact bans

theorem statRows_limit {label value : Str} (own : (label,value) ∈ statRows report) (limit : label = str "dropped (throttle)") :
    value = natText (report.counters .droppedThrottle).toNat := by
  simp only [statRows,List.mem_cons,List.not_mem_nil,or_false,Prod.mk.injEq] at own
  rcases own with ⟨rfl,rfl⟩ | ⟨rfl,rfl⟩ | ⟨rfl,rfl⟩ | ⟨rfl,rfl⟩ | ⟨rfl,rfl⟩ | ⟨rfl,rfl⟩ | ⟨rfl,rfl⟩
  all_goals first | rfl | exact absurd limit (by decide)

/-- The line of that label has no two spaces at all. -/
theorem statLine_limit (n : Nat) : statLine (column (str "dropped (throttle)") (natText n)) = none := by
  have cell := natText_cell n
  have space : (0x20 : UInt16) ∉ natText n := fun member => by cases natText_digits n _ member
  have ends : ∀ u ∈ (column (str "dropped (throttle)") (natText n)).getLast?, isWhite u = false := by
    rw [column,List.getLast?_append_of_ne_nil _ cell.filled]
    exact cell.black.2
  have none : ¬ str "  " <:+: column (str "dropped (throttle)") (natText n) := fun inside =>
    absurd (infix_append_free (by decide) space inside) (by decide)
  rw [statLine,trimEnd_black ends,find_none.mpr none]
  rfl

theorem statLine_row : ∀ row ∈ statRows report, statLine (column row.1 row.2) = if row.1.length < 18 then some row else none := by
  intro row own
  obtain ⟨cell,⟨room,alone⟩ | limit⟩ := label_room row.1 (statRows_label own)
  · rw [if_pos room]
    exact statLine_column cell (statRows_cell row own) alone room
  · rw [statRows_limit own limit,limit,if_neg (by decide)]
    exact statLine_limit _

theorem column_ascii {label value : Str} (cell : Cell label) (cell' : Cell value) :
    ∀ u ∈ column label value, 0x20 ≤ u.toNat ∧ u.toNat < 0x7F := by
  intro u member
  rw [column,List.mem_append,List.mem_append] at member
  rcases member with (own | pad) | own
  · exact cell.ascii u own
  · rw [List.eq_of_mem_replicate pad]
    decide
  · exact cell'.ascii u own

theorem statRows_ascii : ∀ line ∈ (statRows report).map fun row => column row.1 row.2,
    ∀ u ∈ line, 0x20 ≤ u.toNat ∧ u.toNat < 0x7F := by
  intro line member
  obtain ⟨row,own,rfl⟩ := List.mem_map.mp member
  exact column_ascii (label_room row.1 (statRows_label own)).1 (statRows_cell row own)

theorem statsText_paired (report : Guard.Report) : Paired (statsText report) := by
  rw [statsText_rows]
  refine paired_ascii fun u member => ?_
  obtain ⟨line,own,inside⟩ := List.mem_flatMap.mp member
  rcases List.mem_append.mp inside with text | stop
  · have bounds := statRows_ascii line own u text
    omega
  · rw [List.mem_singleton.mp stop]
    decide

theorem rustLines_stats (report : Guard.Report) :
    rustLines (statsText report) = (statRows report).map fun row => column row.1 row.2 := by
  rw [statsText_rows,rustLines_written fun line own member => absurd (statRows_ascii line own _ member) (by decide)]
  conv_rhs => rw [← List.map_id ((statRows report).map _)]
  refine List.map_congr_left fun line own => if_neg fun last => ?_
  exact absurd (statRows_ascii line own _ (List.mem_of_getLast? last)) (by decide)

theorem guardStats_shown (bin : Str) (stderr : Bytes) (report : Guard.Report) :
    guardStats (some bin) (.ok ⟨.code 0,fromString (statsText report),stderr⟩) = .ok ((statRows report).eraseIdx 2) := by
  have kept : (statRows report).filterMap (fun row => if row.1.length < 18 then some row else none) =
      (statRows report).eraseIdx 2 := rfl
  simp only [guardStats,run_paired bin stderr (statsText_paired report)]
  rw [← kept,← List.filterMap_congr statLine_row,Except.map,rustLines_stats,List.filterMap_map]
  rfl

/-- The dashboard shows all counters but that of the packets that were throttled. -/
theorem guardStats_never (bin : Str) (stderr : Bytes) (report : Guard.Report) :
    guardStats (some bin) (.ok ⟨.code 0,fromString (statsText report),stderr⟩) = .ok ((statRows report).eraseIdx 2) ∧
      guardStats (some bin) (.ok ⟨.code 0,fromString (statsText report),stderr⟩) ≠ .ok (statRows report) := by
  have shown := guardStats_shown bin stderr report
  refine ⟨shown,fun all => ?_⟩
  have seven : (statRows report).length = 7 := rfl
  have sizes := congrArg List.length (Except.ok.inj (shown.symm.trans all))
  rw [List.length_eraseIdx,seven] at sizes
  exact absurd sizes (by decide)

/-- 7 packets dropped by the throttle, of a source that is not banned. -/
def throttled : Guard.Report :=
  ⟨fun slot => if slot = .passed then 120 else if slot = .droppedThrottle then 7 else 0,⟨30,60⟩,0,65536,0⟩

theorem throttled_lost : (str "dropped (throttle)",str "7") ∈ statRows throttled ∧
    guardStats (some (str "fips-guard")) (.ok ⟨.code 0,fromString (statsText throttled),[]⟩) =
      .ok [(str "passed",str "120"),(str "dropped (ban)",str "0"),(str "not ipv6",str "0"),(str "parse failed",str "0"),
        (str "throttle",str "30 pkt/s per source, burst 60"),
        (str "bans",str "0/65536 active (0 expired reclaimed)")] ∧
    guardStats (some (str "fips-guard")) (.ok ⟨.code 0,fromString (statsText throttled),[]⟩) ≠ .ok (statRows throttled) := by
  rw [guardStats_shown]
  refine ⟨by decide,by decide,?_⟩
  decide

end Rows

/-! ## The configuration -/

/-- The loop of `show --porcelain` over the lines that were resolved. -/
def showPorcelain (resolved : Str) : Str :=
  written 0x0A (((records newline resolved).map parsed).map (Config.Request.shows true).row)

theorem print_porcelain (sh : Interpreter) (presets : Presets) (service custom : Str) :
    print sh presets (.shows true) service custom =
      showPorcelain (filterService presets service (resolveAll sh presets custom)) := rfl

/-- `Config::load`, of a path that may not be UTF-8. -/
def configLoad (shieldConfig : Option Str) (spawned : Except Str Output) : Except Str (List Report) :=
  match shieldConfig with
  | none => .error (str "shield-config path is not valid UTF-8")
  | some bin => (run bin spawned).map fun out => (rustLines out).filterMap porcelainEntry

theorem configLoad_load (bin : Str) (out : Output) : (configLoad (some bin) (.ok out)).toOption =
    load ⟨if out.status = .code 0 then 0 else 1,fromUtf8Lossy out.stdout⟩ := by
  by_cases ends : out.status = .code 0
  · rw [configLoad,run,load,if_pos ends,if_pos ends,if_pos rfl]
    rfl
  · obtain ⟨e,failed⟩ : ∃ e, run bin (.ok out) = .error e := by
      rw [run,if_neg ends]
      dsimp only
      split_ifs <;> exact ⟨_,rfl⟩
    rw [configLoad,load,failed,if_neg ends,if_neg Nat.one_ne_zero]
    rfl

/-- What is resolved of a key, as strings of characters. -/
structure Setting where
  source : String
  key : String
  value : String
  label : '\t' ∉ source.toList ∧ '\n' ∉ source.toList
  name : '\t' ∉ key.toList ∧ '\n' ∉ key.toList
  single : '\n' ∉ value.toList

namespace Setting

def report (setting : Setting) : Report := ⟨str setting.key,str setting.value,str setting.source⟩

theorem whole (setting : Setting) : setting.report.Whole where
  untabbed := (mem_str_ascii 0x09 (by decide) _).not.mpr setting.name.1
  key := (mem_str_ascii 0x0A (by decide) _).not.mpr setting.name.2
  value := (mem_str_ascii 0x0A (by decide) _).not.mpr setting.single
  source := (mem_str_ascii 0x0A (by decide) _).not.mpr setting.label.2

theorem source_plain (setting : Setting) : 0x09 ∉ setting.report.source :=
  (mem_str_ascii 0x09 (by decide) _).not.mpr setting.label.1

theorem value_last (setting : Setting) :
    setting.report.value.getLast? = some 0x0D ↔ setting.value.toList.getLast? = some '\r' := by
  have final : setting.report.value = setting.value.toList.flatMap utf16 := rfl
  rw [final]
  rcases List.eq_nil_or_concat setting.value.toList with empty | ⟨earlier,c,chars⟩
  · simp [empty]
  · rw [chars,List.concat_eq_append,List.flatMap_append,List.flatMap_singleton,List.getLast?_concat]
    rw [List.getLast?_append_of_ne_nil _ (utf16_filled c),Option.some_inj]
    constructor
    · intro last
      exact (utf16_ascii 0x0D (by decide) c).mp (List.mem_of_getLast? last)
    · rintro rfl
      decide

theorem row_paired (setting : Setting) : Paired ((Config.Request.shows true).row setting.report) := by
  have tab : Paired [0x09] := paired_str "\t"
  have parts := (paired_str setting.source).append (tab.append ((paired_str setting.key).append (tab.append (paired_str setting.value))))
  have row : (Config.Request.shows true).row setting.report =
      str setting.source ++ ([0x09] ++ (str setting.key ++ ([0x09] ++ str setting.value))) := by
    simp [Config.Request.row,report]
  rwa [row]

/-- The entry that is loaded of a line of `show --porcelain`. -/
def loaded (setting : Setting) : Report := ⟨setting.report.key,unreturned setting.report.value,setting.report.source⟩

theorem loaded_iff (setting : Setting) : setting.loaded = setting.report ↔ setting.value.toList.getLast? ≠ some '\r' := by
  rw [ne_eq,← setting.value_last]
  constructor
  · intro same last
    have value := congrArg (fun report => report.value.length) same
    simp only [loaded,unreturned,if_pos last,List.length_dropLast] at value
    have filled : setting.report.value ≠ [] := fun empty => by rw [empty] at last; cases last
    have size := List.length_pos_iff.mpr filled
    omega
  · intro other
    rw [loaded,unreturned,if_neg other]

end Setting

theorem porcelain_lines (settings : List Setting) :
    showPorcelain (written 0x0A (settings.map fun setting => setting.report.text)) =
      written 0x0A (settings.map fun setting => (Config.Request.shows true).row setting.report) := by
  have single : ∀ line ∈ settings.map fun setting => setting.report.text, 0x0A ∉ line := by
    intro line member
    obtain ⟨setting,_,rfl⟩ := List.mem_map.mp member
    exact setting.whole.single
  have parts : (settings.map fun setting => setting.report.text).map parsed = settings.map Setting.report := by
    rw [List.map_map]
    exact List.map_congr_left fun setting _ => parsed_report setting.whole setting.source_plain
  rw [showPorcelain,records_lines_written single,parts,List.map_map]
  rfl

theorem porcelain_paired (settings : List Setting) :
    Paired (written 0x0A (settings.map fun setting => (Config.Request.shows true).row setting.report)) := by
  induction settings with
  | nil => exact ⟨[],rfl⟩
  | cons setting rest ih => exact (setting.row_paired.append (paired_str "\n")).append ih

theorem configLoad_porcelain (bin : Str) (stderr : Bytes) (settings : List Setting) :
    configLoad (some bin)
        (.ok ⟨.code 0,fromString (showPorcelain (written 0x0A (settings.map fun setting => setting.report.text))),stderr⟩) =
      .ok (settings.map Setting.loaded) := by
  have single : ∀ line ∈ settings.map fun setting => (Config.Request.shows true).row setting.report, 0x0A ∉ line := by
    intro line member
    obtain ⟨setting,_,rfl⟩ := List.mem_map.mp member
    exact row_single setting.whole _
  have entries : (settings.map fun setting => (Config.Request.shows true).row setting.report).filterMap
      (porcelainEntry ∘ unreturned) = settings.map Setting.loaded := by
    rw [List.filterMap_map,← List.filterMap_eq_map]
    exact List.filterMap_congr fun setting _ => porcelainEntry_row setting.whole setting.source_plain
  rw [porcelain_lines,configLoad,run_paired bin stderr (porcelain_paired settings),← entries,← List.filterMap_map,
    ← rustLines_written single]
  rfl

/-- The dashboard loads what was printed exactly where no value ends with a carriage return. -/
theorem porcelain_iff (bin : Str) (stderr : Bytes) (settings : List Setting) :
    configLoad (some bin)
        (.ok ⟨.code 0,fromString (showPorcelain (written 0x0A (settings.map fun setting => setting.report.text))),stderr⟩) =
      .ok (settings.map Setting.report) ↔ ∀ setting ∈ settings, setting.value.toList.getLast? ≠ some '\r' := by
  rw [configLoad_porcelain,Except.ok.injEq,List.map_inj_left]
  exact forall₂_congr fun setting _ => setting.loaded_iff

/-- A line of an env file that was written with carriage returns. -/
def returned : Setting := ⟨"custom","SHIELD_BIND_ADDR","fd00::1\r",by decide,by decide,by decide⟩

theorem returned_lost :
    resolveExtras ⟨[],fun _ => false,fun _ _ => none,[]⟩ (parseEnvfile (str "SHIELD_BIND_ADDR=fd00::1\r\n")) =
      written 0x0A [returned.report.text] ∧
    configLoad (some (str "shield-config"))
        (.ok ⟨.code 0,fromString (showPorcelain (written 0x0A [returned.report.text])),[]⟩) =
      .ok [⟨str "SHIELD_BIND_ADDR",str "fd00::1",str "custom"⟩] ∧
    configLoad (some (str "shield-config"))
        (.ok ⟨.code 0,fromString (showPorcelain (written 0x0A [returned.report.text])),[]⟩) ≠ .ok [returned.report] := by
  have loads := configLoad_porcelain (str "shield-config") [] [returned]
  rw [List.map_singleton,List.map_singleton] at loads
  rw [loads]
  refine ⟨by decide +kernel,rfl,fun same => ?_⟩
  have one := (List.cons.inj (Except.ok.inj same)).1
  exact absurd one (returned.loaded_iff.not.mpr (by decide))

end FipsShield.Ui
