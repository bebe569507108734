import FipsShield.VerdictLine
import FipsShield.Library.Pattern

/-! The filters of the detection engine (`core/fail2ban/filter.d`) on the lines of the
message engine: a rule is counted by one of them, or by none if it is the enforcement's echo. -/
namespace FipsShield.Filters
open Text FipsShield.Core VerdictLine
open Pattern

def notQuote (u : UInt16) : Bool := u != 0x22

def layerText (layer : String) : Str := str "\",\"layer\":\"" ++ str layer ++ str "\",\"rule\":\""

/-- The alternatives that the filter of abuse names. -/
def structural : List String := ["protocol","malformed","oversized-message","oversized-handshake","binary-frame",
  "frame-flood","engine-error"]

/-- The alternatives that the filter of policy violations excludes. -/
def excluded : List String := ["banned\"","protocol\"","malformed\"","oversized-message\"","oversized-handshake\"",
  "binary-frame\"","frame-flood\"","engine-error\""]

section
variable (addr : Pattern UInt16)

/-- The patterns are the same up to the rule; `addr` is the engine's `<ADDR>`. -/
def prologue (layer : String) : List (Pattern UInt16) :=
  [text (str "js: shield-verdict \x7b\"ts\":\""),many notQuote,text (str "\",\"src\":\""),addr,
    text (str "\",\"service\":\""),many notQuote,text (layerText layer)]

/-- `fips-shield-verdict`. -/
def verdictFilter : Pattern UInt16 := sequence <| prologue addr "ws" ++
  [notAhead (oneOf (excluded.map str)),more notQuote,text (str "\"")]

/-- `fips-shield-abuse`. -/
def abuseFilter : Pattern UInt16 := sequence <| prologue addr "ws" ++
  [oneOf (structural.map str),text (str "\"")]

/-- `fips-shield-connrate`. -/
def connrateFilter : Pattern UInt16 := sequence <| prologue addr "access" ++ [text (str "conn-rate\"")]

end

def captures (filter : Pattern UInt16) (line : Str) : List (List Str) := (search filter line).map Prod.fst

/-- `<ADDR>` matches no quote, and reads a source that a quote ends as one host. -/
structure Reads (addr : Pattern UInt16) (src host : Str) : Prop where
  quoteless : ∀ input, ∀ m ∈ addr input, ∃ own, input = own ++ m.2 ∧ 0x22 ∉ own
  host : ∀ tail caps, (caps,0x22::tail) ∈ addr (src ++ 0x22::tail) ↔ caps = [host]

variable {addr : Pattern UInt16} {src host : Str} {ps : List (Pattern UInt16)} {m : Match UInt16}

theorem notQuote_of {s : Str} (free : 0x22 ∉ s) : ∀ u ∈ s, notQuote u = true := by
  intro u member
  simp only [notQuote,bne_iff_ne,ne_eq]
  rintro rfl
  exact free member

theorem sequence_addr (reads : Reads addr src host) (free : 0x22 ∉ src) {s tail : Str} :
    m ∈ sequence (addr::text (0x22::s)::ps) (src ++ 0x22::tail) ↔
      ∃ later ∈ sequence (text (0x22::s)::ps) (0x22::tail), m = (host::later.1,later.2) := by
  rw [mem_sequence_cons]
  constructor
  · rintro ⟨⟨caps,left⟩,read,later,member,rfl⟩
    obtain ⟨own,same,free'⟩ := reads.quoteless _ _ read
    obtain ⟨next,within,_⟩ := mem_sequence_cons.mp member
    have starts : left = 0x22::(s ++ next.2) := (mem_text.mp within).2
    subst starts
    obtain ⟨_,tail⟩ := Lines.split_unique free free' same
    rw [← tail] at read member
    obtain rfl := (reads.host _ caps).mp read
    exact ⟨later,tail ▸ member,rfl⟩
  · rintro ⟨later,member,rfl⟩
    exact ⟨([host],0x22::tail),(reads.host tail _).mpr rfl,later,member,rfl⟩

theorem prologue_reads {v : Verdict} (reads : Reads addr v.src host) (src : Plain v.src) (service : Plain (service v))
    (layer : String) (tail : Str) :
    m ∈ sequence (prologue addr layer ++ ps) (str "js: shield-verdict \x7b\"ts\":\"" ++ (toISOString v.ts ++
      (str "\",\"src\":\"" ++ (v.src ++ (str "\",\"service\":\"" ++ (VerdictLine.service v ++
        (str "\",\"layer\":\"ws\",\"rule\":\"" ++ tail))))))) ↔
      ∃ later ∈ sequence (text (layerText layer)::ps) (str "\",\"layer\":\"ws\",\"rule\":\"" ++ tail),
        m = (host::later.1,later.2) := by
  have quote : notQuote 0x22 = false := by decide
  have first : str "\",\"src\":\"" = 0x22::str ",\"src\":\"" := by decide
  have second : str "\",\"service\":\"" = 0x22::str ",\"service\":\"" := by decide
  have third : str "\",\"layer\":\"ws\",\"rule\":\"" = 0x22::str ",\"layer\":\"ws\",\"rule\":\"" := by decide
  have fourth : layerText layer = 0x22::(str ",\"layer\":\"" ++ str layer ++ str "\",\"rule\":\"") := rfl
  simp only [prologue,List.cons_append,List.nil_append]
  rw [sequence_text,first,List.cons_append,sequence_many quote (notQuote_of (date_plain v.ts).quoteless),
    ← List.cons_append,sequence_text,second,List.cons_append,sequence_addr reads src.quoteless]
  simp only [← List.cons_append,sequence_text]
  simp only [fourth,third,List.cons_append,sequence_many quote (notQuote_of service.quoteless)]

/-! ## Searching a line -/

section
variable {v : Verdict} {stamp : Str}

/-- A pattern is found in a line at the anchor only, with the source's host captured first. -/
theorem search_line (plain : 0x22 ∉ stamp) (reads : Reads addr v.src host) (src : Plain v.src)
    (service : Plain (service v)) (layer : String) :
    m ∈ search (sequence (prologue addr layer ++ ps)) (line stamp v) ↔
      ∃ later ∈ sequence (text (layerText layer)::ps)
        (str "\",\"layer\":\"ws\",\"rule\":\"" ++ (str v.rule.text ++ 0x22::rest v)),m = (host::later.1,later.2) := by
  rw [← prologue_reads reads src service,mem_search,line_eq src service]
  constructor
  · rintro ⟨front,after,same,member⟩
    obtain ⟨first,read,_⟩ := mem_sequence_cons.mp member
    have starts := (mem_text.mp read).2
    have brace : str "js: shield-verdict \x7b\"ts\":\"" = str "js: shield-verdict \x7b" ++ 0x22::str "ts\":\"" := by
      decide
    have place : front = stamp := by
      apply anchor_unique plain (line_quiet src service)
      rw [← starts,← same,brace]
      simp
    rw [place] at same
    rw [List.append_cancel_left same]
    exact member
  · intro member
    exact ⟨stamp,_,rfl,member⟩

theorem ruled_ws : m ∈ sequence (text (layerText "ws")::ps) (str "\",\"layer\":\"ws\",\"rule\":\"" ++ tail) ↔
    m ∈ sequence ps tail := by
  have same : layerText "ws" = str "\",\"layer\":\"ws\",\"rule\":\"" := by decide
  rw [same,sequence_text]

theorem ruled_access : m ∉ sequence (text (layerText "access")::ps) (str "\",\"layer\":\"ws\",\"rule\":\"" ++ tail) := by
  intro member
  obtain ⟨first,read,_⟩ := mem_sequence_cons.mp member
  have starts := congrArg (List.take 12) (mem_text.mp read).2
  rw [List.take_append_of_le_length (by decide),List.take_append_of_le_length (by decide)] at starts
  exact absurd starts (by decide)

theorem named_iff {names : List Str} {rule : Str} (free : 0x22 ∉ rule) (others : ∀ name ∈ names, 0x22 ∉ name)
    (tail : Str) :
    (∃ left, ∃ name ∈ names, rule ++ 0x22::tail = name ++ 0x22::left) ↔ rule ∈ names := by
  constructor
  · rintro ⟨left,name,member,same⟩
    rw [(Lines.split_unique free (others name member) same).1]
    exact member
  · intro member
    exact ⟨tail,rule,member,rfl⟩

theorem structural_quoteless : ∀ name ∈ structural.map str, 0x22 ∉ name := by decide

/-- The two lists are written to match: one has the other's names, and the echo's. -/
theorem excluded_eq : excluded.map str = ((str "banned")::structural.map str).map (· ++ [0x22]) := by decide

theorem ruled_excluded {rule : Str} (free : 0x22 ∉ rule) (filled : rule ≠ []) (tail : Str) :
    m ∈ sequence [notAhead (oneOf (excluded.map str)),more notQuote,text (str "\"")] (rule ++ 0x22::tail) ↔
      rule ∉ (str "banned")::structural.map str ∧ m = ([],tail) := by
  have quoteless : ∀ name ∈ (str "banned")::structural.map str, 0x22 ∉ name :=
    List.forall_mem_cons.mpr ⟨by decide,structural_quoteless⟩
  have ahead : oneOf (excluded.map str) (rule ++ 0x22::tail) = [] ↔ rule ∉ (str "banned")::structural.map str := by
    rw [List.eq_nil_iff_forall_not_mem,← named_iff free quoteless tail,excluded_eq]
    simp only [mem_oneOf,List.mem_map]
    constructor
    · rintro none ⟨left,name,member,same⟩
      exact none ([],left) ⟨_,⟨name,member,rfl⟩,rfl,by rw [same,List.append_assoc]; rfl⟩
    · rintro none ⟨caps,left⟩ ⟨_,⟨name,member,rfl⟩,_,same⟩
      exact none ⟨left,name,member,by rw [same,List.append_assoc]; rfl⟩
  have quote : str "\"" = [0x22] := by decide
  have after : m ∈ sequence [more notQuote,text (str "\"")] (rule ++ 0x22::tail) ↔ m = ([],tail) := by
    rw [quote,sequence_more (by decide) (notQuote_of free) filled]
    exact (sequence_text (s := [0x22])).trans List.mem_singleton
  rw [mem_sequence_cons]
  constructor
  · rintro ⟨first,read,later,member,rfl⟩
    obtain ⟨rfl,none⟩ := mem_notAhead.mp read
    exact ⟨ahead.mp none,after.mp member⟩
  · rintro ⟨other,same⟩
    exact ⟨_,mem_notAhead.mpr ⟨rfl,ahead.mpr other⟩,m,after.mpr same,rfl⟩

theorem ruled_structural {rule : Str} (free : 0x22 ∉ rule) (tail : Str) :
    m ∈ sequence [oneOf (structural.map str),text (str "\"")] (rule ++ 0x22::tail) ↔
      rule ∈ structural.map str ∧ m = ([],tail) := by
  have quote : str "\"" = [0x22] := by decide
  rw [mem_sequence_cons,quote]
  constructor
  · rintro ⟨⟨caps,left⟩,read,later,member,rfl⟩
    obtain ⟨name,known,rfl,same⟩ := mem_oneOf.mp read
    obtain ⟨next,within,last,ended,rfl⟩ := mem_sequence_cons.mp member
    obtain ⟨none,starts⟩ := mem_text.mp within
    obtain rfl := List.mem_singleton.mp ended
    simp only at starts same
    rw [starts] at same
    obtain ⟨rfl,rest⟩ := Lines.split_unique free (structural_quoteless name known) same
    exact ⟨known,by rw [none,rest]; rfl⟩
  · rintro ⟨known,rfl⟩
    refine ⟨([],0x22::tail),mem_oneOf.mpr ⟨rule,known,rfl,rfl⟩,([],tail),?_,rfl⟩
    exact (sequence_text (s := [0x22])).mpr (List.mem_singleton.mpr rfl)

theorem verdict_captures (plain : 0x22 ∉ stamp) (reads : Reads addr v.src host) (src : Plain v.src)
    (service : Plain (service v)) (caps : List Str) :
    caps ∈ captures (verdictFilter addr) (line stamp v) ↔
      str v.rule.text ∉ (str "banned")::structural.map str ∧ caps = [host] := by
  have filled : str v.rule.text ≠ [] := by cases v.rule <;> decide
  simp only [captures,List.mem_map,verdictFilter,search_line plain reads src service,ruled_ws,
    ruled_excluded (rule_plain v.rule).quoteless filled]
  constructor
  · rintro ⟨m,⟨later,⟨other,rfl⟩,rfl⟩,rfl⟩
    exact ⟨other,rfl⟩
  · rintro ⟨other,rfl⟩
    exact ⟨_,⟨_,⟨other,rfl⟩,rfl⟩,rfl⟩

theorem abuse_captures (plain : 0x22 ∉ stamp) (reads : Reads addr v.src host) (src : Plain v.src)
    (service : Plain (service v)) (caps : List Str) :
    caps ∈ captures (abuseFilter addr) (line stamp v) ↔ str v.rule.text ∈ structural.map str ∧ caps = [host] := by
  simp only [captures,List.mem_map,abuseFilter,search_line plain reads src service,ruled_ws,
    ruled_structural (rule_plain v.rule).quoteless]
  constructor
  · rintro ⟨m,⟨later,⟨known,rfl⟩,rfl⟩,rfl⟩
    exact ⟨known,rfl⟩
  · rintro ⟨known,rfl⟩
    exact ⟨_,⟨_,⟨known,rfl⟩,rfl⟩,rfl⟩

theorem connrate_captures (plain : 0x22 ∉ stamp) (reads : Reads addr v.src host) (src : Plain v.src)
    (service : Plain (service v)) : captures (connrateFilter addr) (line stamp v) = [] := by
  apply List.eq_nil_iff_forall_not_mem.mpr
  intro caps member
  obtain ⟨m,found,_⟩ := List.mem_map.mp member
  obtain ⟨later,read,_⟩ := (search_line plain reads src service "access").mp found
  exact ruled_access read

end

/-! ## Rules -/

theorem service_plain {v : Verdict} (plain : Plain v.service) : Plain (service v) := by
  rw [service]
  split_ifs
  · decide +kernel
  · exact plain

/-- Each rule but the echo of enforcement is counted by one of the two filters of the
message engine, for the session's own host, whatever the client writes into the detail. -/
theorem rules_filtered (addr : Pattern UInt16) (stamp : Str) (plain : 0x22 ∉ stamp) (v : Verdict)
    (address : Banlist.Address v.src) (host : Str) (reads : Reads addr v.src host) (service : Plain v.service) :
    (v.rule = .banned → captures (verdictFilter addr) (line stamp v) = [] ∧
      captures (abuseFilter addr) (line stamp v) = [] ∧ captures (connrateFilter addr) (line stamp v) = []) ∧
    (v.rule ≠ .banned → captures (connrateFilter addr) (line stamp v) = [] ∧
      Xor (captures (verdictFilter addr) (line stamp v) ≠ []) (captures (abuseFilter addr) (line stamp v) ≠ []) ∧
      ∀ caps ∈ captures (verdictFilter addr) (line stamp v) ++ captures (abuseFilter addr) (line stamp v),
        caps = [host]) ∧
    ∀ detail, ∀ filter ∈ [verdictFilter addr,abuseFilter addr,connrateFilter addr], ∀ caps,
      caps ∈ captures filter (line stamp {v with detail}) ↔ caps ∈ captures filter (line stamp v) := by
  have source := address_plain address
  have named := service_plain service
  have verdict := verdict_captures plain reads source named
  have abuse := abuse_captures plain reads source named
  have connrate := connrate_captures plain reads source named
  have none {filter : Pattern UInt16} {known : Prop} (unknown : ¬ known)
      (all : ∀ caps, caps ∈ captures filter (line stamp v) ↔ known ∧ caps = [host]) :
      captures filter (line stamp v) = [] :=
    List.eq_nil_iff_forall_not_mem.mpr fun caps member => unknown ((all caps).mp member).1
  have some {filter : Pattern UInt16} {known : Prop} (holds : known)
      (all : ∀ caps, caps ∈ captures filter (line stamp v) ↔ known ∧ caps = [host]) :
      captures filter (line stamp v) ≠ [] :=
    List.ne_nil_of_mem ((all [host]).mpr ⟨holds,rfl⟩)
  refine ⟨?_,?_,?_⟩
  · intro echo
    have excluded : str v.rule.text ∈ (str "banned")::structural.map str := by rw [echo]; decide
    have unnamed : str v.rule.text ∉ structural.map str := by rw [echo]; decide
    exact ⟨none (not_not.mpr excluded) verdict,none unnamed abuse,connrate⟩
  · intro other
    have text : str v.rule.text ≠ str "banned" := by
      intro same
      revert other same
      cases v.rule <;> decide
    refine ⟨connrate,?_,?_⟩
    · by_cases known : str v.rule.text ∈ structural.map str
      · refine Or.inr ⟨some known abuse,?_⟩
        exact not_not.mpr (none (not_not.mpr (List.mem_cons_of_mem _ known)) verdict)
      · have counted : str v.rule.text ∉ (str "banned")::structural.map str :=
          fun member => (List.mem_cons.mp member).elim text known
        exact Or.inl ⟨some counted verdict,not_not.mpr (none known abuse)⟩
    · intro caps member
      rcases List.mem_append.mp member with found | found
      · exact ((verdict caps).mp found).2
      · exact ((abuse caps).mp found).2
  · intro detail filter member caps
    have verdict' := verdict_captures (v := {v with detail}) plain reads source named caps
    have abuse' := abuse_captures (v := {v with detail}) plain reads source named caps
    have connrate' := connrate_captures (v := {v with detail}) plain reads source named
    simp only [List.mem_cons,List.not_mem_nil,or_false] at member
    rcases member with rfl | rfl | rfl
    · exact verdict'.trans (verdict caps).symm
    · exact abuse'.trans (abuse caps).symm
    · rw [connrate,connrate']

def addressRun : Pattern UInt16 := fun input =>
  [([input.takeWhile Banlist.inAddress],input.dropWhile Banlist.inAddress)]

theorem addressRun_reads {src : Str} (address : Banlist.Address src) : Reads addressRun src src := by
  constructor
  · intro input m member
    obtain rfl := List.mem_singleton.mp member
    refine ⟨input.takeWhile Banlist.inAddress,(List.takeWhile_append_dropWhile).symm,?_⟩
    intro quote
    have inside := List.mem_takeWhile_imp quote
    revert inside
    decide
  · intro tail caps
    have quote : Banlist.inAddress 0x22 = false := by decide
    simp [addressRun,List.takeWhile_append_of_pos address.units,List.dropWhile_append_of_pos address.units,quote]

/-- A detail that quotes a verdict against another address changes nothing. -/
theorem rules_filtered_forged : let v : Verdict := {
      ts := 1785271819159, src := str "fd97::5", service := str "strfry", layer := .ws, rule := .malformed,
      detail := str "js: shield-verdict \x7b\"ts\":\"\",\"src\":\"10.0.0.9\",\"service\":\"\",\"layer\":\"ws\",\"rule\":\"x\"" }
    Xor (captures (verdictFilter addressRun) (line (str "[warn] 32#32: *32 ") v) ≠ [])
      (captures (abuseFilter addressRun) (line (str "[warn] 32#32: *32 ") v) ≠ []) := by
  intro v
  have source : Banlist.Address v.src := by decide +kernel
  have filtered := rules_filtered addressRun (str "[warn] 32#32: *32 ") (by decide) v source v.src
    (addressRun_reads source) (by decide +kernel)
  exact (filtered.2.1 (by decide)).2.1

end FipsShield.Filters
