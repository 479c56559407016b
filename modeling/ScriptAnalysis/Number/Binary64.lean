/-! Numbers of the binary format with 53 significant bits, as exact pairs of mantissa and exponent. -/
namespace ScriptAnalysis

inductive Magnitude where
  | finite (mantissa : Nat) (exponent : Int)
  | infinite
  deriving DecidableEq, Repr

structure Binary64 where
  negative : Bool
  magnitude : Magnitude
  deriving DecidableEq, Repr

namespace Magnitude

def minExponent : Int := -1074

def maxExponent : Int := 971

def roundHalfEven (num den : Nat) : Nat :=
  let q := num / den
  let r := num % den
  if 2 * r < den then q
  else if den < 2 * r then q + 1
  else if q % 2 = 0 then q else q + 1

def scaled (num den : Nat) (exponent : Int) : Nat :=
  roundHalfEven (num * Nat.pow 2 (-exponent).toNat) (den * Nat.pow 2 exponent.toNat)

/-- The number with the given mantissa of at most 53 bits, carried over when it has one more. -/
def normalize (mantissa : Nat) (exponent : Int) : Magnitude :=
  let carried :=
    if mantissa = Nat.pow 2 53 then (Nat.pow 2 52, exponent + 1) else (mantissa, exponent)
  if maxExponent < carried.2 then .infinite else .finite carried.1 carried.2

/-- The number of the format that is nearest to a quotient, a half to the even mantissa. -/
def ofQuotient (num den : Nat) : Magnitude :=
  if num = 0 then .finite 0 minExponent
  else
    let low := max minExponent ((num.log2 : Int) - den.log2 - 53)
    if scaled num den low ≤ Nat.pow 2 53 then normalize (scaled num den low) low
    else normalize (scaled num den (low + 1)) (low + 1)

/-- The number of the format that is nearest to `digits * 10 ^ exponent`, where `digits` has at most
`width` decimal digits. Sizes far outside the format are settled before any power is taken. -/
def ofDecimal (digits width : Nat) (exponent : Int) : Magnitude :=
  if digits = 0 ∨ exponent + width < -330 then .finite 0 minExponent
  else if 330 < exponent then .infinite
  else ofQuotient (digits * Nat.pow 10 exponent.toNat) (Nat.pow 10 (-exponent).toNat)

end Magnitude

end ScriptAnalysis
