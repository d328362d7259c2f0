import AuditTrail.Json

/-!
# Numbers of JSON

A number is read as a significand of up to 64 bits and a power of ten, and is refused if it lies
beyond the numbers of double precision.  The significand and the power of ten are each rounded to
double precision first, and their product decides.
-/

namespace AuditTrail.Json

def digitValue (c : Char) : Nat := c.toNat - '0'.toNat

def significandLimit : Nat := Nat.pow 2 64

/-- Puts digits behind those of a significand as long as it fits, and returns how many are left. -/
def takeDigits (significand : Nat) : List Char → Nat × Nat
  | [] => (significand, 0)
  | c :: cs =>
    let longer := significand * 10 + digitValue c
    if longer < significandLimit then takeDigits longer cs else (significand, cs.length + 1)

/-- The nearest number of 53 bits and zeros behind them.  A tie goes to the even one. -/
def nearestDouble (n : Nat) : Nat :=
  let unit := Nat.pow 2 (n.log2 - 52)
  let low := n / unit
  let rest := 2 * (n % unit)
  let up := unit < rest ∨ (unit = rest ∧ low % 2 = 1)
  (if up then low + 1 else low) * unit

/-- From here on a number is nearer to the power of two that is out of range. -/
def doubleLimit : Nat := Nat.pow 2 1024 - Nat.pow 2 970

def maxPower : Nat := 308

def isInRange (significand : Nat) (exponent : Int) : Bool :=
  significand = 0 || exponent < 0 ||
    (exponent ≤ maxPower &&
      nearestDouble significand * nearestDouble (Nat.pow 10 exponent.toNat) < doubleLimit)

/-- What is below half of the smallest number of double precision is zero. -/
def minPower : Int := -343

def ofDecimal (sign : Int) (significand : Nat) (exponent : Int) : Json :=
  if significand = 0 ∨ exponent < minPower then .decimal 0 0
  else .decimal (sign * significand) exponent

/-- A whole number of 64 bits, with or without a sign, is kept as one.  There is no negative zero
among them. -/
def isWord (negative : Bool) (significand : Nat) : Bool :=
  !negative || (0 < significand && significand ≤ Nat.pow 2 63)

def number? (negative : Bool) (whole : List Char) (fraction : Option (List Char))
    (exponent : Option Int) : Option Json :=
  let sign : Int := if negative then -1 else 1
  let (significand, left) := takeDigits 0 whole
  if fraction.isNone && exponent.isNone && left = 0 && isWord negative significand then
    some (.integer (sign * significand))
  else
    let digits := fraction.getD []
    let (significand, leftOver) := takeDigits significand digits
    let exponent := left - (digits.length - leftOver) + exponent.getD 0
    if isInRange significand exponent then some (ofDecimal sign significand exponent) else none

end AuditTrail.Json
