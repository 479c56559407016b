import ScriptAnalysis.Number.Binary64

/-!
Decimal text of a number: the fewest digits that read back as the same number, and of those the
nearest to it; of two equally near the greater.
-/
namespace ScriptAnalysis

structure Decimal where
  digits : Nat
  scale : Int
  deriving DecidableEq, Repr

namespace Magnitude

def fraction (n : Nat) (power exponent : Int) : Nat × Nat :=
  (n * Nat.pow 10 power.toNat * Nat.pow 2 exponent.toNat,
    Nat.pow 10 (-power).toNat * Nat.pow 2 (-exponent).toNat)

def decimalScale (mantissa : Nat) (exponent : Int) : Int :=
  let guess := ((mantissa.log2 : Int) + exponent) * 30103 / 100000 - 1
  let below (k : Int) : Bool :=
    let (num, den) := fraction mantissa (-k) exponent
    num < den
  ([guess, guess + 1, guess + 2].find? below).getD (guess + 3)

/-- The decimal with `count` digits nearest to the number among those that read back as it. The
interval of values that round to the number runs from a half step below to a half step above; below
a power of two the step is half as wide, and the ends belong to an even mantissa. -/
def withDigits? (mantissa : Nat) (exponent : Int) (scale : Int) (count : Nat) : Option Decimal :=
  let power := (count : Int) - scale
  let (num, den) := fraction (4 * mantissa) power (exponent - 2)
  let narrow := mantissa = Nat.pow 2 52 ∧ minExponent < exponent
  let low := (fraction (if narrow then 4 * mantissa - 1 else 4 * mantissa - 2) power (exponent - 2)).1
  let high := (fraction (4 * mantissa + 2) power (exponent - 2)).1
  let readsBack (d : Nat) : Bool :=
    if mantissa % 2 = 0 then low ≤ d * den && d * den ≤ high else low < d * den && d * den < high
  let down := num / den
  let up := down + 1
  match readsBack down, readsBack up with
  | true, true => some ⟨if num - down * den < up * den - num then down else up, scale⟩
  | true, false => some ⟨down, scale⟩
  | false, true => some ⟨up, scale⟩
  | false, false => none

/-- The shortest decimal of a finite nonzero number, searched from the given digit count up. -/
def shortestFrom (mantissa : Nat) (exponent scale : Int) : (tries count : Nat) → Nat × Decimal
  | 0, count => (count, ⟨mantissa, scale⟩)
  | tries + 1, count =>
    match withDigits? mantissa exponent scale count with
    | some d => (count, d)
    | none => shortestFrom mantissa exponent scale tries (count + 1)

/-- The digits of the shortest decimal, and the power of ten that the point stands behind. -/
def shortestDigits (mantissa : Nat) (exponent : Int) : List Char × Int :=
  let (count, d) := shortestFrom mantissa exponent (decimalScale mantissa exponent) 17 1
  let digits := Nat.toDigits 10 d.digits
  let trimmed := (digits.reverse.dropWhile (· = '0')).reverse
  (trimmed, d.scale + ((digits.length : Int) - count))

end Magnitude

structure DecimalLayout where
  least : Int
  greatest : Int

namespace Binary64

def layout : DecimalLayout := ⟨-3, 16⟩

def zeros (n : Nat) : List Char := List.replicate n '0'

/-- Digits with the point before them, inside or behind; at least one digit on each side. -/
def positional (digits : List Char) (scale : Int) : List Char :=
  if scale ≤ 0 then '0' :: '.' :: zeros (-scale).toNat ++ digits
  else if digits.length ≤ scale.toNat then
    digits ++ zeros (scale.toNat - digits.length) ++ ['.', '0']
  else digits.take scale.toNat ++ '.' :: digits.drop scale.toNat

/-- Digits with the point behind the first one, and a power of ten. -/
def scientific (digits : List Char) (scale : Int) : List Char :=
  let tail := digits.drop 1
  digits.take 1 ++ (if tail.isEmpty then [] else '.' :: tail) ++
    'e' :: (toString (scale - 1)).toList

def magnitudeText : Magnitude → List Char
  | .infinite => ['i', 'n', 'f']
  | .finite mantissa exponent =>
    if mantissa = 0 then ['0', '.', '0']
    else
      let (digits, scale) := Magnitude.shortestDigits mantissa exponent
      if layout.least ≤ scale ∧ scale ≤ layout.greatest then positional digits scale
      else scientific digits scale

def render (x : Binary64) : String :=
  String.ofList (if x.negative then '-' :: magnitudeText x.magnitude else magnitudeText x.magnitude)

end Binary64

end ScriptAnalysis
