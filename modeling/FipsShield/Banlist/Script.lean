import FipsShield.Library.Decimal
import FipsShield.Library.Lines

/-! The banlist file and the script that keeps it (`core/actions/shield-ban`): its awk
filters, the three ways its shell reads the seconds of a ban, and its commands. -/
namespace FipsShield.Banlist
open Text Numeral

/-! ## awk -/

def blank (u : UInt16) : Bool := u == 0x20 || u == 0x09
def newline (u : UInt16) : Bool := u == 0x0A

/-- All of the text is a decimal numeral. -/
def looksNumeric (s : Str) : Bool :=
  let body := (signed true s).2
  let whole := body.takeWhile isDigit
  let (fraction,rest) := fractionPart (body.dropWhile isDigit)
  (whole ≠ [] || fraction ≠ []) && (rest = [] || (exponentPart rest).any fun read => read.2 = [])

def strnum (s : Str) : Option Number := if looksNumeric s then some (parseFloat s) else none

/-- `a == b` of input text: of numbers where both sides look numeric, of strings otherwise. -/
def equal (a b : Str) : Bool :=
  match strnum a,strnum b with
  | some x,some y => x = y
  | _,_ => a = b

def above (a b : Str) : Bool :=
  match strnum a,strnum b with
  | some x,some y => y < x
  | _,_ => b < a

/-- `$i` of a line. -/
def column (i : Nat) (line : Str) : Str := (Lines.fields blank line).getD (i - 1) []

/-- What `awk 'condition'` prints of its input. -/
def select (condition : Str → Bool) (input : Str) : Str :=
  Lines.written 0x0A ((Lines.records newline input).filter condition)

/-- `NF >= 2 && ($2 == 0 || $2 > now)`. -/
def active (now : Nat) (line : Str) : Bool :=
  2 ≤ (Lines.fields blank line).length &&
    (equal (column 2 line) (str "0") || above (column 2 line) (natText now))

def activeEntries (now : Nat) (file : Option Str) : Str :=
  match file with
  | none => []
  | some text => select (active now) text

/-- `$1 != ip`. -/
def without (ip input : Str) : Str := select (fun line => !equal (column 1 line) ip) input

/-! ## Seconds -/

/-- The patterns `''`, `-`, `*[!0-9-]*` and `?*-*`, none of which an integer matches. -/
def isInteger (ttl : Str) : Bool :=
  ttl ≠ [] && ttl ≠ [0x2D] && ttl.all (fun u => isDigit u || u == 0x2D) && !(ttl.drop 1).contains 0x2D

def representable (n : Int) : Bool := -2 ^ 63 ≤ n && n < 2 ^ 63

def wrap (n : Int) : Int := n.bmod (2 ^ 64)

def decimalValue (ttl : Str) : Int :=
  let (negative,ds) := signed false ttl
  if negative then -(digitsValue ds : Int) else digitsValue ds

/-- `[ "$ttl" -le 0 ]`: an operand that does not fit is an error, and the test fails. -/
def testLe (ttl : Str) : Bool := representable (decimalValue ttl) && decimalValue ttl ≤ 0

/-- A constant in `$(( ))`: a leading zero makes it octal, and a digit too great for
its base is an error. -/
def constant (ds : Str) : Option Int :=
  if ds.head? = some 0x30 then
    if ds.all (fun u => u < 0x38) then some (wrap (ds.foldl (fun n d => n * 8 + (d.toNat - 0x30)) 0 : Nat)) else none
  else some (wrap (digitsValue ds))

def evaluate (ttl : Str) : Option Int :=
  let (negative,ds) := signed false ttl
  (constant ds).map fun n => if negative then wrap (-n) else n

/-- The expiry a ban stores, none where the arithmetic is an error. -/
def expiry (now : Nat) (ttl : Str) : Option Int :=
  if testLe ttl then some 0 else (evaluate ttl).map fun n => wrap (now + n)

/-! ## The commands -/

/-- Messages of the shell itself are kept without the script's name and line. -/
structure Outcome where
  status : Nat
  out : Str
  err : Str
  file : Option Str

def announce (ip till : Str) : Str :=
  if till = str "0" then str "banned " ++ ip ++ str " permanently\n"
  else str "banned " ++ ip ++ str " until " ++ till ++ str "\n"

/-- `shield-ban ban ip ttl`; the clock is read for the expiry and again for the filter. -/
def ban (first last : Nat) (ip ttl : Str) (file : Option Str) : Outcome :=
  if ip = [] ∨ ttl = [] then ⟨1,[],str "usage: shield-ban ban <ip> <seconds>\n",file⟩
  else if !isInteger ttl then
    ⟨2,[],str "shield-ban: seconds must be an integer, got '" ++ ttl ++ str "'\n",file⟩
  else
    let complaint := if representable (decimalValue ttl) then [] else
      str "[: " ++ ttl ++ str ": integer expression expected\n"
    match expiry first ttl with
    | none => ⟨1,[],complaint ++ ttl ++ str ": value too great for base (error token is \"" ++ ttl ++ str "\")\n",file⟩
    | some till =>
      let written := without ip (activeEntries last file) ++ ip ++ 0x20 :: intText till ++ str "\n"
      ⟨0,announce ip (intText till),complaint,some written⟩

def unban (now : Nat) (ip : Str) (file : Option Str) : Outcome :=
  if ip = [] then ⟨1,[],str "usage: shield-ban unban <ip>\n",file⟩
  else ⟨0,str "unbanned " ++ ip ++ str "\n",[],some (without ip (activeEntries now file))⟩

/-- `$( )`: what was printed, without the newlines at its end. -/
def captured (printed : Str) : Str := (printed.reverse.dropWhile newline).reverse

/-- What `awk '$1 == ip {print $2}'` prints of the active entries. -/
def expiries (now : Nat) (ip : Str) (file : Option Str) : Str :=
  let found := (Lines.records newline (activeEntries now file)).filter fun line => equal (column 1 line) ip
  Lines.written 0x0A (found.map (column 2))

def check (now : Nat) (ip : Str) (file : Option Str) : Outcome :=
  if ip = [] then ⟨1,[],str "usage: shield-ban check <ip>\n",file⟩
  else
    let till := captured (expiries now ip file)
    if till ≠ [] then ⟨0,announce ip till,[],file⟩
    else ⟨1,str "not banned " ++ ip ++ str "\n",[],file⟩

def list (now : Nat) (file : Option Str) : Outcome := ⟨0,activeEntries now file,[],file⟩

end FipsShield.Banlist
