import ScriptAnalysis.Number.Binary64

/-! Reading numerals: a sign, decimal digits, and for decimals a point and an exponent. -/
namespace ScriptAnalysis.Numeral

/-- Whether a character is one of the ten decimal digits. -/
def isDigit (c : Char) : Bool := '0' ≤ c && c ≤ '9'

/-- The value of a digit string, the first digit being the highest. -/
def value (digits : List Char) : Nat :=
  digits.foldl (fun acc c => 10 * acc + (c.toNat - '0'.toNat)) 0

def splitSign : List Char → Bool × List Char
  | '-' :: rest => (true, rest)
  | '+' :: rest => (false, rest)
  | text => (false, text)

def natural? (text : List Char) : Option Nat :=
  if !text.isEmpty && text.all isDigit then some (value text) else none

def signed (negative : Bool) (n : Nat) : Int := if negative then -(n : Int) else n

def minInteger : Int := -9223372036854775808

def maxInteger : Int := 9223372036854775807

def integer? (text : List Char) : Option Int :=
  let (negative, digits) := splitSign text
  match natural? digits with
  | none => none
  | some n =>
    let v := signed negative n
    if minInteger ≤ v ∧ v ≤ maxInteger then some v else none

/-- The value of the exponent part: nothing, or `e`, a sign and digits. -/
def exponent? : List Char → Option Int
  | [] => some 0
  | c :: rest =>
    if c = 'e' ∨ c = 'E' then
      let (negative, digits) := splitSign rest
      (natural? digits).map (signed negative)
    else none

/-- The number that a decimal numeral is nearest to. Digits stand on at least one side of the point. -/
def decimal? (text : List Char) : Option Binary64 :=
  let (negative, body) := splitSign text
  let whole := body.takeWhile isDigit
  let afterWhole := body.dropWhile isDigit
  let (fraction, tail) :=
    match afterWhole with
    | '.' :: rest => (rest.takeWhile isDigit, rest.dropWhile isDigit)
    | rest => ([], rest)
  let digits := whole ++ fraction
  if digits.isEmpty then none
  else
    (exponent? tail).map fun e =>
      ⟨negative, .ofDecimal (value digits) digits.length (e - fraction.length)⟩

end ScriptAnalysis.Numeral
