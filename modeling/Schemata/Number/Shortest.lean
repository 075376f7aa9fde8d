import Schemata.Number.Binary64

/-!
# Shortest decimal text

A double is written with the fewest digits that read back as the same double and, among those, the
ones nearest to its value; of two that are equally near the one with an even last digit. For one,
two, ... digits the two neighbours of the value on that decimal grid are tested against the interval
of reals that round to the double.
-/

namespace Schemata.Binary64

/-- Whether `a * 10 ^ p ≤ b * 2 ^ q`. -/
def leScaled (a : Nat) (p : Int) (b : Nat) (q : Int) : Bool :=
  a * tenTo p.toNat * twoTo (-q).toNat ≤ b * twoTo q.toNat * tenTo (-p).toNat

/-- Whether `a * 10 ^ p` and `b * 2 ^ q` are the same number. -/
def eqScaled (a : Nat) (p : Int) (b : Nat) (q : Int) : Bool :=
  a * tenTo p.toNat * twoTo (-q).toNat == b * twoTo q.toNat * tenTo (-p).toNat

/-- Whether `a * 10 ^ p` rounds to the double `m * 2 ^ q`: it lies between the middles to both
neighbours, and on one of them only if `m` is even. -/
def readsBack (m : Nat) (q : Int) (a : Nat) (p : Int) : Bool :=
  let low := if m == twoTo (precision - 1) && q > minExponent then 4 * m - 1 else 4 * m - 2
  let high := 4 * m + 2
  let inside := !leScaled a p low (q - 2) && leScaled a p high (q - 2)
    && !eqScaled a p high (q - 2)
  inside || (m % 2 == 0 && (eqScaled a p low (q - 2) || eqScaled a p high (q - 2)))

/-- The number of digits before the point of `m * 2 ^ q`; zero or less for numbers below one. -/
def pointPosition (m : Nat) (q : Int) : Int :=
  let (num, den) := (m * twoTo q.toNat, twoTo (-q).toNat)
  if num ≥ den then decimalLength (num / den) else 1 - (decimalLength (den / num) : Int)

/-- The candidate with `n` digits: the nearer of the two neighbours on the grid, if it reads back,
or else the other one. -/
def candidate? (m : Nat) (q : Int) (point : Int) (n : Nat) : Option (Nat × Int) :=
  let p := point - n
  let num := m * twoTo q.toNat * tenTo (-p).toNat
  let den := twoTo (-q).toNat * tenTo p.toNat
  let below := num / den
  let above := below + 1
  let (first, second) :=
    if 2 * (num % den) < den || (2 * (num % den) == den && below % 2 == 0) then (below, above)
    else (above, below)
  if first > 0 && readsBack m q first p then some (first, p)
  else if second > 0 && readsBack m q second p then some (second, p)
  else none

/-- The shortest digits of a positive double and the power of ten they are multiplied by. -/
def shortestDigits (m : Nat) (q : Int) : Nat × Int :=
  let point := pointPosition m q
  match (List.range 17).findSome? fun n => candidate? m q point (n + 1) with
  | some found => found
  | none => (m, q)

/-- Exponents outside `(lowest, highest]` are written with a power of ten. -/
structure NumberFormat where
  lowest : Int
  highest : Int
  infinity : String
  notANumber : String

/-- The text of a positive double: positional with at least one place for numbers of moderate
size, otherwise one digit, the places and an exponent of at least two digits. -/
def positiveText (format : NumberFormat) (m : Nat) (q : Int) : String :=
  let (digits, power) := shortestDigits m q
  let digits := (Nat.toDigits 10 digits)
  let point := (digits.length : Int) + power
  -- trailing zeros carry no information
  let digits := (digits.reverse.dropWhile (· == '0')).reverse
  let text :=
    if format.lowest < point && point ≤ format.highest then
      if point ≤ 0 then '0' :: '.' :: (List.replicate (-point).toNat '0' ++ digits)
      else
        let whole := digits.take point.toNat
        let places := digits.drop point.toNat
        whole ++ List.replicate (point.toNat - whole.length) '0' ++
          '.' :: (if places.isEmpty then ['0'] else places)
    else
      let exponent := point - 1
      let shown := Nat.toDigits 10 exponent.natAbs
      digits.take 1 ++ (if digits.length > 1 then '.' :: digits.drop 1 else []) ++
        'e' :: (if exponent < 0 then '-' else '+') ::
          (List.replicate (2 - shown.length) '0' ++ shown)
  String.ofList text

def textWith (format : NumberFormat) : Binary64 → String
  | .nan => format.notANumber
  | .infinite negative => (if negative then "-" else "") ++ format.infinity
  | .finite negative m q =>
    (if negative then "-" else "") ++ (if m == 0 then "0.0" else positiveText format m q)

/-- The plain text of a double: positional from four zeros after the point up to sixteen digits. -/
def text : Binary64 → String :=
  textWith ⟨-4, 16, "inf", "nan"⟩

/-- The text of a double in generated code and in JSON documents. -/
def literalText : Binary64 → String :=
  textWith ⟨-4, 16, "Infinity", "NaN"⟩

end Schemata.Binary64
