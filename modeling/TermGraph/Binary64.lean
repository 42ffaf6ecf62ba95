/-!
# Binary64 — floating-point values as their bit patterns

A real number carried by a term is one of the `2^64` patterns of the
binary64 format, and here it is nothing else: a word, read by arithmetic
on natural numbers. No machine operation is used, so every answer below
can be computed by the kernel and reasoned about by `omega`.

The pattern is the datum because two questions about reals have two
different answers, and both are asked:

- IDENTITY (`numEq`) is the comparison of the format: the two zeros are
  equal, and a value that is not a number differs from everything, itself
  included;
- SAMENESS OF PATTERN is `=` on this type: the two zeros differ, and a
  value that is not a number equals itself and no other pattern.

A third reading, `orderKey`, puts all patterns in one line: it is the
order used where results are ranked.

A pattern is a sign bit and a magnitude. Magnitudes order the absolute
values: the finite ones come first, then infinity, then the patterns that
are not numbers.
-/

namespace TermGraph

/-- A floating-point value, as the pattern of its 64 bits. -/
structure Binary64 where
  bits : UInt64
  deriving DecidableEq, Hashable, Inhabited

namespace Binary64

/-! ## The fields of a pattern -/

/-- The sign bit: the patterns from here on are those of negative
values. -/
def signBit : Nat := 0x8000000000000000

/-- The leading bit of a normal significand. So many patterns make a
binade. -/
def leadingBit : Nat := 0x10000000000000

/-- The bit below it, which marks a quiet pattern among those that are not
numbers. -/
def quietBit : Nat := 0x8000000000000

/-- The sign bit is set. -/
def isNegative (x : Binary64) : Bool := decide (signBit ≤ x.bits.toNat)

/-- The pattern without its sign bit. -/
def magnitude (x : Binary64) : Nat := x.bits.toNat % signBit

/-- The eleven bits that choose the binade, as they are stored. -/
def biasedExponent (x : Binary64) : Nat := x.magnitude / leadingBit

/-- The fifty-two bits below the binade. -/
def fraction (x : Binary64) : Nat := x.magnitude % leadingBit

/-- The pattern of a sign and a magnitude. -/
def ofParts (negative : Bool) (magnitude : Nat) : Binary64 :=
  ⟨UInt64.ofNat ((if negative then signBit else 0) + magnitude)⟩

/-- The magnitude of infinity: every finite magnitude is below it, and
every pattern that is not a number is above. -/
def infinityMagnitude : Nat := 2047 * leadingBit

/-- Positive zero. -/
def zero : Binary64 := ofParts false 0

/-- Negative zero. -/
def negativeZero : Binary64 := ofParts true 0

/-- The infinity of a sign. -/
def infinity (negative : Bool) : Binary64 := ofParts negative infinityMagnitude

/-- The quiet pattern answered by an operation that has no number to
answer. -/
def quietNaN : Binary64 := ofParts false (infinityMagnitude + quietBit)

/-! ## The classes of values -/

/-- The pattern is not a number. -/
def isNaN (x : Binary64) : Bool := decide (infinityMagnitude < x.magnitude)

/-- One of the two infinities. -/
def isInfinite (x : Binary64) : Bool := decide (x.magnitude = infinityMagnitude)

/-- A number, and not an infinity. -/
def isFinite (x : Binary64) : Bool := decide (x.magnitude < infinityMagnitude)

/-- One of the two zeros. -/
def isZero (x : Binary64) : Bool := decide (x.magnitude = 0)

/-- The value without its sign. -/
def abs (x : Binary64) : Binary64 := ofParts false x.magnitude

/-! ## The number a finite pattern stands for

A finite pattern stands for `significand * 2 ^ scale`, with its sign. Both
are total: on the other patterns they are read off the fields in the same
way and mean nothing. -/

/-- The integer significand: the fraction, with the leading bit that a
normal value does not store. -/
def significand (x : Binary64) : Nat :=
  if x.biasedExponent = 0 then x.fraction else leadingBit + x.fraction

/-- The power of two that the significand counts. -/
def scale (x : Binary64) : Int :=
  if x.biasedExponent = 0 then -1074 else (x.biasedExponent : Int) - 1075

/-- A finite value with no fractional part. -/
def isIntegral (x : Binary64) : Bool :=
  x.isFinite && (decide (0 ≤ x.scale) || decide (x.significand % (1 <<< (-x.scale).toNat) = 0))

/-- The integer part of the absolute value. -/
def truncated (x : Binary64) : Nat :=
  x.significand <<< x.scale.toNat >>> (-x.scale).toNat

/-! ## Comparison -/

/-- The format's own equality: zeros of both signs are equal, and a value
that is not a number equals nothing. -/
def numEq (x y : Binary64) : Bool :=
  !x.isNaN && !y.isNaN && (decide (x = y) || (x.isZero && y.isZero))

/-- The place of a pattern in the total order of patterns: negative values
descend from `-1`, the others ascend from `0`. -/
def orderKey (x : Binary64) : Int :=
  if x.isNegative then -1 - (x.magnitude : Int) else x.magnitude

/-- The total order: by sign, then by magnitude. Every two patterns are
comparable, and only equal patterns are equivalent. -/
def totalCompare (x y : Binary64) : Ordering := compare x.orderKey y.orderKey

/-- A value equals itself unless it is not a number. -/
theorem numEq_self (x : Binary64) : x.numEq x = !x.isNaN := by
  cases h : x.isNaN <;> simp [numEq, h]

/-- The format's equality does not depend on the order of its operands. -/
theorem numEq_comm (x y : Binary64) : x.numEq y = y.numEq x := by
  unfold numEq
  cases x.isNaN <;> cases y.isNaN <;> cases x.isZero <;> cases y.isZero <;>
    simp [eq_comm]

/-! ## Rounding — the nearest value, a tie to the even significand

Every operation that can produce a real that is not exactly representable
goes through one function: `ofScaled` takes an exact magnitude
`m * 2 ^ q` and answers the nearest value, a tie going to the even
significand, and an infinity when the magnitude is past the last finite
value. Integers, single-precision patterns and sums are exact magnitudes,
so one rounding is all that separates them from their answer.

The encoding of the result needs no case for subnormal values, and none
for a significand that rounding carries into the next binade: magnitudes
of consecutive values are consecutive naturals, so the carry is addition. -/

/-- `m / 2 ^ n` rounded to the nearest natural, a tie to the even one. -/
def roundShift (m n : Nat) : Nat :=
  let unit := 1 <<< n
  let quotient := m / unit
  let twice := 2 * (m % unit)
  if unit < twice ∨ (twice = unit ∧ quotient % 2 = 1) then quotient + 1 else quotient

/-- The value nearest to `m * 2 ^ q`, with the given sign. -/
def ofScaled (negative : Bool) (m : Nat) (q : Int) : Binary64 :=
  if m = 0 then ofParts negative 0
  else
    let places : Int := Nat.log2 m + 1
    let unit : Int := max (places - 53 + q) (-1074)
    let significand : Nat :=
      if q ≤ unit then roundShift m (unit - q).toNat else m <<< (q - unit).toNat
    ofParts negative (min (significand + (unit + 1074).toNat * leadingBit) infinityMagnitude)

/-- The value nearest to an integer. -/
def ofInt (i : Int) : Binary64 := ofScaled (decide (i < 0)) i.natAbs 0

/-- The value of a single-precision pattern. Every single-precision number
is a value of the wider format, so nothing is rounded; a pattern that is
not a number keeps its sign and its fraction, and becomes quiet. -/
def ofBinary32 (bits : UInt32) : Binary64 :=
  let word : Nat := bits.toNat
  let negative := decide (0x80000000 ≤ word)
  let exponent : Nat := word / 0x800000 % 0x100
  let fraction : Nat := word % 0x800000
  if exponent = 255 then
    if fraction = 0 then infinity negative
    else ofParts negative (infinityMagnitude + quietBit + (fraction % 0x400000) <<< 29)
  else if exponent = 0 then ofScaled negative fraction (-149)
  else ofScaled negative (0x800000 + fraction) ((exponent : Int) - 150)

/-- A finite value, counted in units of the least subnormal. -/
def units (x : Binary64) : Int :=
  let magnitude : Int := (x.significand <<< (x.scale + 1074).toNat : Nat)
  if x.isNegative then -magnitude else magnitude

/-- The sum, rounded once. A sum that is exactly zero is positive, unless
both operands are negative. -/
def add (x y : Binary64) : Binary64 :=
  if x.isNaN || y.isNaN then quietNaN
  else if x.isInfinite then
    if y.isInfinite && x.isNegative != y.isNegative then quietNaN else x
  else if y.isInfinite then y
  else
    let total := x.units + y.units
    if total = 0 then ofParts (x.isNegative && y.isNegative) 0
    else ofScaled (decide (total < 0)) total.natAbs (-1074)

/-- The sum of a list, from the left. It starts from negative zero, the
value that changes no other when it is added. -/
def sum (xs : List Binary64) : Binary64 := xs.foldl add negativeZero

end Binary64

end TermGraph
