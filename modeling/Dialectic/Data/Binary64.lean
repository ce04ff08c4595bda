/-
  This file defines the finite binary64 numbers by their bit
  patterns, the nearest such number to a decimal, and the
  shortest decimal that reads back as a given number.  All
  arithmetic is exact, on natural numbers and integers.

  Key definitions include:
    * `Binary64`
    * `Binary64.ofDecimal?`
    * `Binary64.parts`
    * `Binary64.shortest`
-/

namespace Dialectic

------------------------------------------------------------
-- Rounding
------------------------------------------------------------

/-
  The natural number nearest to `num / den`; of two equally
  near ones the even one.
-/
def roundHalfEven (num den : Nat) : Nat :=
  let q := num / den
  let twice := 2 * (num % den)
  if twice < den then q
  else if den < twice then q + 1
  else if q % 2 = 0 then q
  else q + 1

/-
  The fraction `num / den` divided by `base ^ e`, as a new
  numerator and denominator.
-/
def scaleDown (base : Nat) (e : Int) (num den : Nat) :
    Nat × Nat :=
  if 0 ≤ e then
    (num, den * Nat.pow base e.toNat)
  else
    (num * Nat.pow base (-e).toNat, den)

------------------------------------------------------------
-- Numbers
------------------------------------------------------------

/- A finite binary64 number, given by its bits. -/
structure Binary64 where
  bits : UInt64
deriving DecidableEq, Repr, Inhabited

namespace Binary64

/- The least exponent of the unit in the last place. -/
def minExponent : Int := -1074

/- The greatest exponent of the unit in the last place. -/
def maxExponent : Int := 971

/- The weight of the sign in the bits of a number. -/
def signBit : Nat := Nat.pow 2 63

/- The leading bit, which is left out of the stored fraction. -/
def hiddenBit : Nat := Nat.pow 2 52

/-
  The number with the given sign, whose magnitude is
  `m * 2 ^ q`; here `m < 2 ^ 53`, and `q` is the least
  exponent if `m < 2 ^ 52`.
-/
def ofParts (negative : Bool) (m : Nat) (q : Int) : Binary64 :=
  let sign := if negative then signBit else 0
  let magnitude :=
    if m < hiddenBit then
      m
    else
      (q - minExponent + 1).toNat * hiddenBit + (m - hiddenBit)
  ⟨UInt64.ofNat (sign + magnitude)⟩

/- A number is negative when its first bit is set. -/
def isNegative (x : Binary64) : Bool :=
  decide (signBit ≤ x.bits.toNat)

/-
  The magnitude of a number as `m * 2 ^ q`, as `ofParts`
  expects it.
-/
def parts (x : Binary64) : Nat × Int :=
  let magnitude : Nat := x.bits.toNat % signBit
  let exponent : Nat := magnitude / hiddenBit
  let fraction : Nat := magnitude % hiddenBit
  if exponent = 0 then
    (fraction, minExponent)
  else
    (hiddenBit + fraction, minExponent + exponent - 1)

/-
  The exponent of the last binary place that a number of the
  size of `num / den` has.
-/
def placeOf (num den : Nat) : Int :=
  let guess : Int :=
    (Nat.log2 num : Int) - (Nat.log2 den : Int) - 52
  let (n, d) := scaleDown 2 guess num den
  let place := if n < hiddenBit * d then guess - 1 else guess
  if place < minExponent then minExponent else place

/-
  The number nearest to `num / den`, where a half goes to the
  even neighbour; nothing if it is too large.
-/
def ofFraction? (negative : Bool) (num den : Nat) :
    Option Binary64 :=
  if num = 0 then
    some (ofParts negative 0 minExponent)
  else
    let q := placeOf num den
    let (n, d) := scaleDown 2 q num den
    let m := roundHalfEven n d
    let (m, q) :=
      if m = 2 * hiddenBit then (hiddenBit, q + 1) else (m, q)
    if maxExponent < q then
      none
    else
      some (ofParts negative m q)

/- The number of decimal digits of a natural number. -/
def digitCount (n : Nat) : Nat :=
  (Nat.toDigits 10 n).length

/-
  The number nearest to `digits * 10 ^ exponent`; nothing if
  it is too large.
-/
def ofDecimal?
    (negative : Bool)
    (digits : Nat)
    (exponent : Int) : Option Binary64 :=
  let size := (digitCount digits : Int) + exponent
  if digits = 0 || size < -400 then
    some (ofParts negative 0 minExponent)
  else if 400 < size then
    none
  else
    let (num, den) := scaleDown 10 (-exponent) 1 1
    ofFraction? negative (digits * num) den

------------------------------------------------------------
-- Shortest Decimals
------------------------------------------------------------

/-
  Twice the bounds, in quarters of the last place, between
  which a decimal reads back as `m * 2 ^ q`: the halves of the
  distances to the neighbours.
-/
def quarterBounds (m : Nat) (q : Int) : Nat × Nat :=
  let low :=
    if m = hiddenBit && minExponent < q then
      4 * m - 1
    else
      4 * m - 2
  (low, 4 * m + 2)

/-
  The multiple of `10 ^ k` nearest to `m * 2 ^ q` that reads
  back as this number, divided by `10 ^ k`; of two equally
  near ones the even one.
-/
def onGrid? (m : Nat) (q k : Int) : Option Nat :=
  let (low, high) := quarterBounds m q
  let (n, d) := scaleDown 10 k 1 1
  let (n, d) := scaleDown 2 (2 - q) n d
  let value := 4 * m * n
  let fits := fun c =>
    let at4 := c * d
    if m % 2 = 0 then
      low * n ≤ at4 && at4 ≤ high * n
    else
      low * n < at4 && at4 < high * n
  let below := value / d
  let twice := 2 * (value % d)
  let nearBelow := twice < d || (twice = d && below % 2 = 0)
  let first := if nearBelow then below else below + 1
  let second := if nearBelow then below + 1 else below
  if first != 0 && fits first then
    some first
  else if second != 0 && fits second then
    some second
  else
    none

/- The power of ten of the first digit of `m * 2 ^ q`. -/
def leadingPlace (m : Nat) (q : Int) : Int :=
  let (n, d) := scaleDown 2 (-q) m 1
  if d ≤ n then
    (digitCount (n / d) : Int) - 1
  else
    -- One digit less in `d / n` than the zeros after the point.
    let inverse := d / n
    let exact :=
      d % n = 0 &&
        inverse = Nat.pow 10 (digitCount inverse - 1)
    if exact then
      -((digitCount inverse : Int) - 1)
    else
      -(digitCount inverse : Int)

/-
  The first hit on the grids of `count` more places, starting
  with the multiples of `10 ^ k`.
-/
def searchGrids
    (m : Nat)
    (q : Int) : (count : Nat) → (k : Int) → Nat × Int
| 0, k => (m, k)
| count + 1, k =>
    match onGrid? m q k with
    | some digits => (digits, k)
    | none => searchGrids m q count (k - 1)

/- Drop the zeros at the end of `digits * 10 ^ k`. -/
def dropZeros : (fuel : Nat) → (digits : Nat) → (k : Int) →
    Nat × Int
| 0, digits, k => (digits, k)
| fuel + 1, digits, k =>
    if digits % 10 = 0 then
      dropZeros fuel (digits / 10) (k + 1)
    else
      (digits, k)

/-
  The fewest decimal digits, and the power of ten of the last
  one, that read back as the magnitude of a number.
-/
def shortest (x : Binary64) : Nat × Int :=
  let (m, q) := x.parts
  if m = 0 then
    (0, 0)
  else
    let (digits, k) := searchGrids m q 18 (leadingPlace m q + 1)
    dropZeros 20 digits k

end Binary64

end Dialectic
