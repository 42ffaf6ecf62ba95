import TermGraph.Binary64

/-!
# Decimal — the texts of a real

A real is written with the fewest digits that read back. Which digits these
are is one question, and where the point goes is another; a text of a real
is an answer to both.
-/

namespace TermGraph

/-! ## Shortest — the fewest decimal digits that read back

A finite value is the nearest one to every real of an interval around it.
A decimal numeral inside that interval reads back as the value, so the
numeral to write is the one on the COARSEST grid `10 ^ k` that has a point
in the interval. On that grid only the two neighbours of the value need
looking at: if any point of the grid lies inside, so does one of them. When
both do, the nearer one is written, and the upper one if they are equally
near.

The interval is `[low, high]`, measured in quarters of the unit of the
last binary place so that its ends are integers. Its ends belong to it
exactly when the significand is even, because a tie rounds to the even
significand; its lower half is narrow exactly at a power of two, where the
neighbour below is half as far away.

Everything is arithmetic on naturals. The search goes down one grid at a
time from a grid coarser than the value, and seventeen significant digits
always read back, so a fixed number of steps is enough for every value. -/

/-- The decimal numeral `digits * 10 ^ exponent`. -/
structure Decimal where
  digits : Nat
  exponent : Int
  deriving DecidableEq, Inhabited

namespace Decimal

/-- The reals that round to a value, in quarters of its last place:
the quarters of the value, of the two ends, and whether the ends belong to
it. One quarter is `2 ^ scale`. -/
structure RoundingInterval where
  low : Nat
  value : Nat
  high : Nat
  scale : Int
  closed : Bool

/-- The interval around the absolute value of `x`. -/
def RoundingInterval.around (x : Binary64) : RoundingInterval :=
  let value := 4 * x.significand
  let narrow := x.fraction = 0 ∧ 1 < x.biasedExponent
  { low := value - if narrow then 1 else 2
    value
    high := value + 2
    scale := x.scale - 2
    closed := x.significand % 2 = 0 }

/-- The multiplier that turns quarters into units of the common
denominator of the quarters and the grid `10 ^ k`. -/
def RoundingInterval.weight (r : RoundingInterval) (k : Int) : Nat :=
  Nat.pow 10 (-k).toNat <<< r.scale.toNat

/-- One step of the grid `10 ^ k`, in units of the common denominator. -/
def RoundingInterval.step (r : RoundingInterval) (k : Int) : Nat :=
  Nat.pow 10 k.toNat <<< (-r.scale).toNat

/-- The point `d * 10 ^ k` lies in the interval. -/
def RoundingInterval.contains (r : RoundingInterval) (d : Nat) (k : Int) : Bool :=
  let point := d * r.step k
  let low := r.low * r.weight k
  let high := r.high * r.weight k
  if r.closed then decide (low ≤ point ∧ point ≤ high)
  else decide (low < point ∧ point < high)

/-- The point of the grid `10 ^ k` to write, if one lies in the interval:
the nearer neighbour of the value, the upper one of two equally near. -/
def RoundingInterval.onGrid (r : RoundingInterval) (k : Int) : Option Nat :=
  let exact := r.value * r.weight k
  let below := exact / r.step k
  let above := below + 1
  match r.contains below k, r.contains above k with
  | true, true =>
    if exact - below * r.step k < above * r.step k - exact then some below else some above
  | true, false => some below
  | false, true => some above
  | false, false => none

/-- The first grid with a hit, going down from `10 ^ k`. A search that runs
out of steps answers the neighbour below on the grid it stopped at. -/
def RoundingInterval.search (r : RoundingInterval) : Nat → Int → Decimal
  | 0, k => ⟨r.value * r.weight k / r.step k, k⟩
  | steps + 1, k =>
    match r.onGrid k with
    | some d => ⟨d, k⟩
    | none => r.search steps (k - 1)

/-- An exponent whose power of ten exceeds the value: `30103 / 100000` is
the decimal logarithm of two, rounded up. -/
def topExponent (x : Binary64) : Int :=
  (((Nat.log2 x.significand : Int) + x.scale + 1) * 30103) / 100000 + 2

/-- The shortest numeral of the absolute value of a finite value; zero is
written with the single digit `0`. -/
def shortest (x : Binary64) : Decimal :=
  if x.isZero then ⟨0, 0⟩
  else (RoundingInterval.around x).search 24 (topExponent x)

/-! ## Layout — where the point goes

A numeral is digits and a power of ten; a layout decides how they are
written. Two are used. The POSITIONAL layout never writes an exponent: it
pads with zeros on either side of the point. The SCIENTIFIC layout writes
one digit before the point and the exponent after the letter `e`. -/

/-- The exponent of the leading digit. -/
def leadingExponent (d : Decimal) : Int :=
  d.exponent + ((toString d.digits).length : Int) - 1

/-- The positional layout: the digits, with as many zeros as the power of
ten asks for. A numeral without a fractional part has no point. -/
def positional (d : Decimal) : String :=
  let digits := (toString d.digits).toList
  let places := (-d.exponent).toNat
  let text :=
    if 0 ≤ d.exponent then digits ++ List.replicate d.exponent.toNat '0'
    else if places < digits.length then
      digits.take (digits.length - places) ++ '.' :: digits.drop (digits.length - places)
    else '0' :: '.' :: (List.replicate (places - digits.length) '0' ++ digits)
  String.ofList text

/-- The scientific layout: the point after the first digit, and no point
when there is one digit only. -/
def scientific (d : Decimal) : String :=
  let mantissa :=
    match (toString d.digits).toList with
    | [] => []
    | [c] => [c]
    | c :: rest => c :: '.' :: rest
  String.ofList mantissa ++ "e" ++ toString d.leadingExponent

end Decimal

/-! ## The three texts of a real

A real is written in three ways, and they differ on whole numbers and on
very large and very small values:

- `plainText` is how a real attached as a payload prints: the shortest
  digits, never an exponent, and no point on a whole number;
- `debugText` is the diagnostic form: the shortest digits, at least `.0`,
  and the scientific layout from `10^16` on and below `10^-4`;
- `termText` is how a real prints as a term: a whole number is written in
  full with `.0` after it, anything else as in `plainText`.

Values that are not finite have the same three names everywhere. -/

namespace Binary64

/-- The names of the values that have no digits. -/
def nonFiniteText (x : Binary64) : String :=
  if x.isNaN then "NaN" else if x.isNegative then "-inf" else "inf"

/-- The minus sign of a negative value, a negative zero included. -/
def signText (x : Binary64) : String := if x.isNegative then "-" else ""

/-- The shortest digits in the positional layout. -/
def plainText (x : Binary64) : String :=
  if x.isFinite then x.signText ++ (Decimal.shortest x).positional else x.nonFiniteText

/-- The diagnostic form. Its scientific layout begins where the leading
digit stands for `10^16`, and below `10^-4`. -/
def debugText (x : Binary64) : String :=
  if x.isFinite then
    let d := Decimal.shortest x
    let scientific := 16 ≤ d.leadingExponent ∨ (d.digits ≠ 0 ∧ d.leadingExponent < -4)
    let body :=
      if scientific then d.scientific
      else if 0 ≤ d.exponent then d.positional ++ ".0"
      else d.positional
    x.signText ++ body
  else x.nonFiniteText

/-- The form a real has in the text of a term. -/
def termText (x : Binary64) : String :=
  if x.isIntegral then x.signText ++ toString x.truncated ++ ".0" else x.plainText

end Binary64

end TermGraph
