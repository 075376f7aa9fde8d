/-!
# Double-precision numbers

A finite double is a sign, a natural number below 2^53 and a power of two. Reading a decimal takes
the nearest double, an exact tie going to the even one; everything is exact arithmetic on natural
numbers.
-/

namespace Schemata

/-- A double-precision number: `finite negative m q` is `m * 2 ^ q`, with its sign. -/
inductive Binary64 where
  | nan
  | infinite (negative : Bool)
  | finite (negative : Bool) (mantissa : Nat) (exponent : Int)
  deriving DecidableEq, Repr

namespace Binary64

def twoTo (n : Nat) : Nat := Nat.pow 2 n

def tenTo (n : Nat) : Nat := Nat.pow 10 n

/-- The number of digits of the mantissa. -/
def precision : Nat := 53

/-- The exponent of the smallest doubles. -/
def minExponent : Int := -1074

/-- The exponent of the largest doubles. -/
def maxExponent : Int := 971

/-- A quotient rounded to the nearest natural number, ties to the even one. -/
def roundDiv (num den : Nat) : Nat :=
  let quotient := num / den
  let rest := num % den
  if 2 * rest > den || (2 * rest == den && quotient % 2 == 1) then quotient + 1 else quotient

/-- The quotient `num / den` in units of `2 ^ exponent`, as a numerator and a denominator. -/
def inUnits (num den : Nat) (exponent : Int) : Nat × Nat :=
  if exponent < 0 then (num * twoTo (-exponent).toNat, den) else (num, den * twoTo exponent.toNat)

/-- The double nearest to `num / den`. -/
def ofRatio (negative : Bool) (num den : Nat) : Binary64 :=
  if num == 0 then .finite negative 0 minExponent
  else
    let guess := max ((Nat.log2 num : Int) - Nat.log2 den - precision) minExponent
    let (n, d) := inUnits num den guess
    let exponent := if n / d ≥ twoTo precision then guess + 1 else guess
    let (n, d) := inUnits num den exponent
    let mantissa := roundDiv n d
    let (mantissa, exponent) :=
      if mantissa == twoTo precision then (twoTo (precision - 1), exponent + 1)
      else (mantissa, exponent)
    if exponent > maxExponent then .infinite negative else .finite negative mantissa exponent

def decimalLength (n : Nat) : Nat := (Nat.toDigits 10 n).length

/-- The double nearest to `digits * 10 ^ exponent`. Far outside the range the answer is known
without computing the power. -/
def ofDecimal (negative : Bool) (digits : Nat) (exponent : Int) : Binary64 :=
  if digits == 0 then .finite negative 0 minExponent
  else
    let size := (decimalLength digits : Int) + exponent
    if size > 310 then .infinite negative
    else if size < -330 then .finite negative 0 minExponent
    else if exponent < 0 then ofRatio negative digits (tenTo (-exponent).toNat)
    else ofRatio negative (digits * tenTo exponent.toNat) 1

def isZero : Binary64 → Bool
  | .finite _ 0 _ => true
  | _ => false

def equalsInt (x : Binary64) (n : Int) : Bool :=
  match x with
  | .finite negative m q =>
    let magnitude : Option Nat :=
      if q ≥ 0 then some (m * twoTo q.toNat)
      else if m % twoTo (-q).toNat == 0 then some (m / twoTo (-q).toNat) else none
    match magnitude with
    | some k => (if negative then -(k : Int) else k) == n
    | none => false
  | _ => false

end Binary64

end Schemata
