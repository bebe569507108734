import FipsShield.Banlist.Corrupt

/-! The seconds of a ban, which the pattern, the test and the arithmetic of the shell each
read their own way, and what comes of a ban whatever the digits it is given. -/
namespace FipsShield.Banlist
open Text Numeral

/-! ## Digits in base eight -/

def octalValue (ds : Str) : Nat := ds.foldl (fun n d => n * 8 + (d.toNat - 0x30)) 0

theorem digitsValue_concat (ds : Str) (d : UInt16) : digitsValue (ds ++ [d]) = digitsValue ds * 10 + (d.toNat - 0x30) := by
  simp [digitsValue]

theorem octalValue_concat (ds : Str) (d : UInt16) : octalValue (ds ++ [d]) = octalValue ds * 8 + (d.toNat - 0x30) := by
  simp [octalValue]

theorem octalValue_le (ds : Str) : octalValue ds ≤ digitsValue ds := by
  induction ds using List.reverseRecOn with
  | nil => rfl
  | append_singleton ds d ih =>
    rw [digitsValue_concat,octalValue_concat]
    omega

/-- Only one digit, after any zeros, means the same in both bases. -/
theorem octalValue_eq {ds : Str} (small : digitsValue ds < 8) : octalValue ds = digitsValue ds := by
  rcases List.eq_nil_or_concat ds with rfl | ⟨front,d,rfl⟩
  · rfl
  · have least := octalValue_le front
    rw [List.concat_eq_append,digitsValue_concat] at *
    rw [octalValue_concat]
    omega

theorem octalValue_lt {ds : Str} (large : 8 ≤ digitsValue ds) (octal : ∀ u ∈ ds, u < 0x38) :
    octalValue ds < digitsValue ds := by
  rcases List.eq_nil_or_concat ds with rfl | ⟨front,d,rfl⟩
  · simp [digitsValue] at large
  · have least := octalValue_le front
    have digit : d.toNat < 0x38 := octal d (by simp)
    rw [List.concat_eq_append,digitsValue_concat] at *
    rw [octalValue_concat]
    omega

theorem digitsValue_digit {ds : Str} {d : UInt16} (member : d ∈ ds) : d.toNat - 0x30 ≤ digitsValue ds := by
  induction ds using List.reverseRecOn with
  | nil => cases member
  | append_singleton ds last ih =>
    rw [digitsValue_concat]
    rcases List.mem_append.mp member with earlier | own
    · have bound := ih earlier
      omega
    · rw [List.mem_singleton.mp own]
      omega

/-! ## The expiry -/

theorem wrap_lt (n : Int) : wrap n < 2 ^ 63 := Int.bmod_lt (by decide)

theorem wrap_sum (first : Nat) (n : Int) : wrap (first + wrap n) = wrap (first + n) := Int.add_bmod_bmod

/-- A sum of whole numbers is stored as it is exactly where 63 bits hold it. -/
theorem wrap_whole {n : Nat} {m : Int} (reaches : (n : Int) ≤ m) : wrap n = m ↔ (n : Int) = m ∧ m < 2 ^ 63 := by
  by_cases fits : (n : Int) < 2 ^ 63
  · have same : wrap n = n := wrap_eq (by simp [representable]; omega)
    rw [same]
    omega
  · have bound := wrap_lt n
    omega

/-- The shell stores what is due: the seconds are none and fit 64 bits, or they are some with
no zero before their digits, unless they are fewer than eight, and the sum fits. A negative
number that does not fit is stored as zero only where its sum with the clock wraps to that. -/
def Exact (first : Nat) (ttl : Str) : Prop :=
  if decimalValue ttl ≤ 0 then
    -2 ^ 63 ≤ decimalValue ttl ∨ ∃ n, evaluate ttl = some n ∧ (2 ^ 64 : Int) ∣ first + n
  else (ttl.head? ≠ some 0x30 ∨ decimalValue ttl < 8) ∧ first + decimalValue ttl < 2 ^ 63

theorem signed_positive {ttl : Str} (positive : 0 < decimalValue ttl) :
    signed false ttl = (false,ttl) ∧ decimalValue ttl = digitsValue ttl := by
  have plain : (signed false ttl).1 = false := by
    by_contra minus
    rw [Bool.not_eq_false] at minus
    simp only [decimalValue,minus,if_true] at positive
    omega
  have whole : signed false ttl = (false,ttl) := by
    rw [signed.eq_def] at plain ⊢
    split at plain
    · split_ifs at plain ⊢ <;> simp_all
    · rfl
  exact ⟨whole,by simp [decimalValue,whole]⟩

theorem constant_due {first : Nat} {ttl : Str} (positive : 0 < digitsValue ttl) :
    (constant ttl).map (fun n => wrap (first + n)) = some ((first : Int) + digitsValue ttl) ↔
      (ttl.head? ≠ some 0x30 ∨ digitsValue ttl < 8) ∧ first + digitsValue ttl < 2 ^ 63 := by
  rw [constant]
  split_ifs with zero octal
  · have least := octalValue_le ttl
    have same : wrap (first + wrap (octalValue ttl)) = wrap ((first + octalValue ttl : Nat) : Int) := by
      rw [wrap_sum]
      rfl
    change some (wrap (first + wrap (octalValue ttl))) = _ ↔ _
    rw [same,Option.some.injEq,wrap_whole (by omega)]
    rcases lt_or_ge (digitsValue ttl) 8 with small | large
    · have equal := octalValue_eq small
      simp [small]
      omega
    · have fewer := octalValue_lt large fun u member => by simpa using List.all_eq_true.mp octal u member
      simp [zero]
      omega
  · obtain ⟨u,member,high⟩ : ∃ u ∈ ttl, 0x38 ≤ u := by simpa using octal
    have digit := digitsValue_digit member
    have value : 0x38 ≤ u.toNat := high
    refine iff_of_false (by simp) ?_
    simp [zero]
    omega
  · have same : wrap (first + wrap (digitsValue ttl)) = wrap ((first + digitsValue ttl : Nat) : Int) := by
      rw [wrap_sum]
      rfl
    rw [Option.map_some,same,Option.some.injEq,wrap_whole (by omega)]
    simp [zero]
    omega

theorem expiry_iff (first : Nat) (ttl : Str) :
    expiry first ttl = some (till first (decimalValue ttl) : Int) ↔ Exact first ttl := by
  rw [expiry,Exact,till]
  by_cases none : decimalValue ttl ≤ 0
  · rw [if_pos none,if_pos none]
    by_cases fits : -2 ^ 63 ≤ decimalValue ttl
    · have test : testLe ttl = true := by simp [testLe,representable]; omega
      rw [if_pos test]
      exact iff_of_true rfl (Or.inl fits)
    · have test : testLe ttl = false := by simp [testLe,representable]; omega
      have divides (n : Int) : wrap (first + n) = 0 ↔ (2 ^ 64 : Int) ∣ first + n := Int.dvd_iff_bmod_eq_zero.symm
      rw [if_neg (by rw [test]; decide),or_iff_right fits]
      simp [divides]
  · obtain ⟨whole,value⟩ := signed_positive (Int.not_le.mp none)
    have test : testLe ttl = false := by simp [testLe,none]
    have read : evaluate ttl = constant ttl := by
      rw [evaluate,whole]
      simp
    rw [if_neg none,if_neg none,if_neg (by rw [test]; decide),read,value,Int.toNat_natCast,Nat.cast_add,
      constant_due (by omega)]
    norm_cast

/-! ## What is written, as it is read -/

section Written
variable {now t : Nat} {ip input : Str} (address : Address ip)
include address

theorem records_ban (kept : Str) : Lines.records newline (without ip kept ++ Lines.written 0x0A [line (ip,t)]) =
    (Lines.records newline kept).filter (fun text => !equal (column 1 text) ip) ++ [line (ip,t)] := by
  have own : ∀ u ∈ line (ip,t), newline u = false := @line_one (ip,t) address
  rw [without,select,Lines.records_append (by decide),Lines.records_written (by decide)]
  · simpa using own
  · intro text member
    exact Lines.records_free kept text (List.mem_filter.mp member).1

theorem expiries_written (early : now < 2 ^ 53) :
    expiries now ip (some (without ip input ++ Lines.written 0x0A [line (ip,t)])) =
      Lines.written 0x0A (if stands now t then [natText t] else []) := by
  have standing : active now (line (ip,t)) = stands now t := @active_line (ip,t) address now early
  have first : column 1 (line (ip,t)) = ip := @column_one (ip,t) address
  have second : column 2 (line (ip,t)) = natText t := @column_two (ip,t) address
  have own : equal ip ip = true := by rw [address.equal,decide_eq_true rfl]
  have others : (((Lines.records newline input).filter fun text => !equal (column 1 text) ip).filter
      (active now)).filter (fun text => equal (column 1 text) ip) = [] := by
    simp only [List.filter_eq_nil_iff,List.mem_filter]
    rintro text ⟨⟨_,other⟩,_⟩ same
    simp [same] at other
  have kept : Lines.records newline (activeEntries now (some (without ip input ++ Lines.written 0x0A [line (ip,t)]))) =
      ((Lines.records newline input).filter fun text => !equal (column 1 text) ip).filter (active now) ++
        [line (ip,t)].filter (active now) := by
    rw [activeEntries,select,records_ban address,Lines.records_written (by decide),List.filter_append]
    intro text member
    rw [← records_ban address] at member
    exact Lines.records_free _ text (List.mem_filter.mp member).1
  rw [expiries,kept,List.filter_append,others,List.nil_append,List.filter_cons,List.filter_nil,standing]
  cases stands now t with
  | false => rfl
  | true => simp [first,second,own]

theorem check_written (early : now < 2 ^ 53) :
    (check now ip (some (without ip input ++ Lines.written 0x0A [line (ip,t)]))).status = 0 ↔ stands now t = true := by
  obtain ⟨u,digit⟩ := List.exists_mem_of_ne_nil _ (natText_ne_nil t)
  have printed : captured (Lines.written 0x0A [natText t]) ≠ [] := by
    rw [Ne,captured_eq_nil]
    intro ended
    have plain := (not_blank (digit_not_space (natText_digits t u digit))).2
    rw [ended u (by simp [Lines.written,digit])] at plain
    cases plain
  rw [check,if_neg address.ne_nil,expiries_written address early]
  cases stands now t with
  | false =>
    refine iff_of_false ?_ Bool.false_ne_true
    exact Nat.one_ne_zero
  | true =>
    rw [if_pos rfl,if_pos printed]
    exact iff_of_true rfl rfl

theorem isBanned_written {path : Str} {mtime : ℚ} (named : path ≠ []) (date : now < 2 ^ 53) :
    (isBanned .initial ip path (.readable ⟨without ip input ++ Lines.written 0x0A [line (ip,t)],mtime⟩) now).1 = true ↔
      t = 0 ∨ now < t * 1000 := by
  have split : parts (line (ip,t)) = [ip,natText t] := @parts_line (ip,t) address
  have own : ∀ u ∈ line (ip,t), newline u = false := @line_one (ip,t) address
  have lines : (without ip input ++ Lines.written 0x0A [line (ip,t)]).splitOn 0x0A =
      (Lines.records newline input).filter (fun text => !equal (column 1 text) ip) ++ line (ip,t)::[[]] := by
    rw [without,select,← Lines.written_append]
    refine (Lines.splitOnP_written (by decide) fun text member => ?_).trans (List.append_assoc _ _ _)
    rcases List.mem_append.mp member with old | new
    · exact Lines.records_free input text (List.mem_filter.mp old).1
    · rw [List.mem_singleton.mp new]
      exact own
  have last : Last (without ip input ++ Lines.written 0x0A [line (ip,t)]) ip (line (ip,t)) := by
    refine ⟨by rw [split]; rfl,_,[[]],lines,fun other member => ?_⟩
    rw [List.mem_singleton.mp member]
    intro same
    exact address.ne_nil (Option.some.inj same).symm
  have digits := natText_digits t
  have numeral : leading (natText t) = (false,natText t) := by
    rw [leading,signed_digits true digits,(takeWhile_digits digits).1]
  rw [isBanned_last named (initial_remembers named []) (by simp [File.Told]) last (by rw [split]; rfl),
    counts_parseInt (fun u member => digit_not_space (digits u member)) date,FailsClosed,numeral]
  simp [natText_ne_nil,digitsValue_natText]

end Written

/-! ## The command -/

/-- The ban succeeds and stores what the seconds say in decimal, and until then the script and
the proxy find the address banned. -/
structure Met (first last : Nat) (ip ttl : Str) (file : Option Str) : Prop where
  succeeds : (ban first last ip ttl file).status = 0
  stores : (ban first last ip ttl file).file = some (without ip (activeEntries last file) ++
    Lines.written 0x0A [line (ip,till first (decimalValue ttl))])
  checked : ∀ now < 2 ^ 53, (check now ip (ban first last ip ttl file).file).status = 0 ↔
    decimalValue ttl ≤ 0 ∨ now < first + decimalValue ttl
  enforced : ∀ text ∈ (ban first last ip ttl file).file, ∀ path mtime, path ≠ [] → ∀ now < 2 ^ 53,
    (isBanned .initial ip path (.readable ⟨text,mtime⟩) now).1 = true ↔
      decimalValue ttl ≤ 0 ∨ now < (first + decimalValue ttl) * 1000

theorem ban_expiry {first last : Nat} {ip ttl : Str} {file : Option Str} (address : Address ip) (integer : isInteger ttl = true) :
    ((ban first last ip ttl file).status = 0 ∧ (ban first last ip ttl file).file = some (without ip (activeEntries last file) ++
      Lines.written 0x0A [line (ip,till first (decimalValue ttl))])) ↔
    expiry first ttl = some (till first (decimalValue ttl) : Int) := by
  have filled : ttl ≠ [] := by
    rintro rfl
    cases integer
  have given : ¬ (ip = [] ∨ ttl = []) := not_or.mpr ⟨address.ne_nil,filled⟩
  have checked : ¬ (!isInteger ttl) = true := by rw [integer]; decide
  rw [ban,if_neg given,if_neg checked]
  cases stored : expiry first ttl with
  | none => simp
  | some value =>
    dsimp only
    have same : ip ++ (0x20 :: intText value ++ str "\n") = Lines.written 0x0A [line (ip,till first (decimalValue ttl))] ↔
        value = till first (decimalValue ttl) := by
      have ends : str "\n" = [0x0A] := by decide
      have whole : ip ++ (0x20 :: intText value ++ [0x0A]) = ip ++ 0x20 :: intText value ++ [0x0A] := by simp
      rw [ends,whole]
      simp only [Lines.written,line,List.flatMap_cons,List.flatMap_nil,List.append_nil,List.append_cancel_right_eq,
        List.append_cancel_left_eq,List.cons.injEq,true_and]
      constructor
      · intro text
        rw [← decimalValue_intText value,text]
        exact decimalValue_intText (till first (decimalValue ttl) : Int)
      · rintro rfl
        rfl
    rw [List.append_assoc,List.append_assoc]
    simp only [Option.some.injEq,List.append_cancel_left_eq,same,true_and]

theorem till_later (first now scale : Nat) (value : Int) : till first value = 0 ∨ now < till first value * scale ↔
    value ≤ 0 ∨ (now : Int) < (first + value) * scale := by
  rw [till]
  split_ifs with none
  · exact iff_of_true (Or.inl rfl) (Or.inl none)
  · obtain ⟨n,rfl⟩ : ∃ n : Nat, value = n := ⟨value.toNat,by omega⟩
    have some : first + n ≠ 0 := by omega
    rw [Int.toNat_natCast,or_iff_right some,or_iff_right none]
    norm_cast

/-- A ban of an integer number of seconds, however many digits it has, does what it is for
exactly where the shell reads the digits in base ten and stores the sum as it is. -/
theorem ban_seconds_iff {ip ttl : Str} (address : Address ip) (integer : isInteger ttl = true) (first last : Nat)
    (file : Option Str) : Met first last ip ttl file ↔ Exact first ttl := by
  rw [← expiry_iff,← @ban_expiry first last ip ttl file address integer]
  constructor
  · intro met
    exact ⟨met.succeeds,met.stores⟩
  · rintro ⟨succeeds,stores⟩
    refine ⟨succeeds,stores,fun now early => ?_,fun text member path mtime named now date => ?_⟩
    · have later := till_later first now 1 (decimalValue ttl)
      rw [Nat.mul_one,Nat.cast_one,mul_one] at later
      rw [stores,check_written address early,← later]
      simp [stands]
    · rw [stores] at member
      obtain rfl := Option.some.inj member
      rw [isBanned_written address named date]
      exact till_later first now 1000 (decimalValue ttl)

theorem ban_seconds_week : Met 1700000000 1700000000 (str "fd97::7") (str "604800") none :=
  (ban_seconds_iff (by decide +kernel) (by decide +kernel) 1700000000 1700000000 none).mpr (by unfold Exact; decide +kernel)

/-- Ten seconds with a zero before them are eight. -/
theorem ban_seconds_octal : ¬ ∀ (ip ttl : Str), Address ip → isInteger ttl = true → ∀ first last file,
    Met first last ip ttl file := by
  intro claim
  have met := claim (str "fd97::7") (str "010") (by decide +kernel) (by decide +kernel) 1700000000 1700000000 none
  have stored := met.stores
  revert stored
  decide +kernel

end FipsShield.Banlist
