import StyleSlots.Text.Numeral

/-! # Binary floating-point numbers

    A number that is written with a point or an exponent is kept as a
    number with 53 binary digits.

    - **Rounding**: a decimal becomes the nearest such number. Of two that
      are equally near, it becomes the one with the even significand.
    - **Shortest decimal**: a number is shown by as few digits as tell it
      from all others, and of such decimals by the nearest.
    - **Special values**: what is too great is infinite, and there is one
      value that is no number.

    All comparisons are made between natural numbers, so nothing is lost on
    the way. -/

namespace StyleSlots

/-- The number `significand * 2 ^ exponent`, below zero if `negative`. -/
structure Binary64.Finite where
  negative    : Bool
  significand : Nat
  exponent    : Int
  deriving DecidableEq, Repr

/-- A binary number, or what stands in the place of one. -/
inductive Binary64 where
  | finite (value : Binary64.Finite)
  | infinite (negative : Bool)
  /-- The value that is no number. -/
  | undefined
  deriving DecidableEq, Repr

namespace Binary64

/-- The number of binary digits of a significand. -/
def precision : Nat := 53

/-- The exponent of the least number above zero. -/
def leastExponent : Int := -1074

/-- The exponent of the greatest finite number. -/
def greatestExponent : Int := 971

/-- Whether a value is other than zero. -/
def isNonzero : Binary64 → Bool
  | finite x => x.significand != 0
  | _ => true

/-! ## Fractions -/

/-- The fraction `n / d` divided by `base ^ e`. -/
def unscale (base : Nat) (e : Int) (n d : Nat) : Nat × Nat :=
  (n * Nat.pow base (-e).toNat, d * Nat.pow base e.toNat)

/-- The size of a number as a fraction. -/
def Finite.fraction (x : Finite) : Nat × Nat :=
  unscale 2 (-x.exponent) x.significand 1

/-- The whole number nearest to a fraction, and of two the even one. -/
def roundToEven (n d : Nat) : Nat :=
  let q := n / d
  let twice := 2 * (n % d)
  if twice < d || (twice = d && q % 2 = 0) then q else q + 1

/-- The least `k` with `n / d < base ^ k`, for a fraction above zero. -/
def magnitude (base n d : Nat) : Int :=
  let k : Int := (numeral base n).length - (numeral base d).length
  -- the fraction lies between the powers with exponents `k - 1` and `k + 1`
  let (m, e) := unscale base k n d
  if m < e then k else k + 1

/-! ## Rounding -/

/-- The number `n * 2 ^ exponent`, for an `n` of at most the given precision
    or of that power of two. -/
def ofSignificand (negative : Bool) (n : Nat) (exponent : Int) : Binary64 :=
  -- rounding up may have led to one digit more than there is room for
  let (n, exponent) :=
    if n = Nat.pow 2 precision then (Nat.pow 2 (precision - 1), exponent + 1) else (n, exponent)
  if greatestExponent < exponent then infinite negative else finite ⟨negative, n, exponent⟩

/-- The number nearest to `n / d`. -/
def ofFraction (negative : Bool) (n d : Nat) : Binary64 :=
  if n = 0 then finite ⟨negative, 0, leastExponent⟩
  else
    let e := max leastExponent (magnitude 2 n d - precision)
    let (m, k) := unscale 2 e n d
    ofSignificand negative (roundToEven m k) e

/-- The number nearest to `coefficient * 10 ^ exponent`. -/
def ofDecimal (negative : Bool) (coefficient : Nat) (exponent : Int) : Binary64 :=
  let (n, d) := unscale 10 (-exponent) coefficient 1
  ofFraction negative n d

/-- The number nearest to an integer. -/
def ofInt (n : Int) : Binary64 := ofFraction (n < 0) n.natAbs 1

/-- The value of a finite number as a fraction. -/
def Finite.value (x : Finite) : Int × Nat :=
  let (n, d) := x.fraction
  (if x.negative then -n else n, d)

/-- The number nearest to a sum. -/
def add : Binary64 → Binary64 → Binary64
  | finite x, finite y =>
    let (n, d) := x.value
    let (m, e) := y.value
    let sum := n * e + m * d
    ofFraction (sum < 0) sum.natAbs (d * e)
  | infinite s, infinite t => if s = t then infinite s else undefined
  | infinite s, finite _ => infinite s
  | finite _, infinite s => infinite s
  | _, _ => undefined

/-! ## The shortest decimal -/

/-- The number `digits * 10 ^ exponent`. -/
structure Decimal where
  digits   : Nat
  exponent : Int
  deriving DecidableEq, Repr

/-- Compares a decimal with `n * 2 ^ e`. -/
def Decimal.compareWith (d : Decimal) (n : Nat) (e : Int) : Ordering :=
  compare (d.digits * Nat.pow 10 d.exponent.toNat * Nat.pow 2 (-e).toNat)
    (n * Nat.pow 2 e.toNat * Nat.pow 10 (-d.exponent).toNat)

/-- Whether a decimal lies among those that round to the size of `x`. They
    reach halfway to the neighbours, and so far only if the significand is
    even. -/
def Finite.roundsTo (x : Finite) (d : Decimal) : Bool :=
  -- below a power of two the neighbour is half as far away
  let gap :=
    if x.significand = Nat.pow 2 (precision - 1) && leastExponent < x.exponent then 1 else 2
  let low := d.compareWith (4 * x.significand - gap) (x.exponent - 2)
  let high := d.compareWith (4 * x.significand + 2) (x.exponent - 2)
  let closed := x.significand % 2 = 0
  (low = .gt || (closed && low = .eq)) && (high = .lt || (closed && high = .eq))

/-- The multiple of `10 ^ e` nearest to `x`, or else the one on the other
    side of `x`, if that rounds to `x`. -/
def Finite.onGrid (x : Finite) (e : Int) : Option Decimal :=
  let (n, d) := unscale 10 e x.fraction.1 x.fraction.2
  let nearest := roundToEven n d
  let other := if nearest = n / d then nearest + 1 else nearest - 1
  [Decimal.mk nearest e, Decimal.mk other e].find? x.roundsTo

/-- The greatest number of digits that is needed. -/
def greatestLength : Nat := 17

/-- The exact size of `x`. -/
def Finite.exactDecimal (x : Finite) : Decimal :=
  ⟨x.significand * Nat.pow 2 x.exponent.toNat * Nat.pow 5 (-x.exponent).toNat, min x.exponent 0⟩

/-- The decimal with the fewest digits that rounds to the size of `x`. -/
def Finite.shortest (x : Finite) : Decimal :=
  if x.significand = 0 then ⟨0, 0⟩
  else
    let top := magnitude 10 x.fraction.1 x.fraction.2
    -- the coarsest grid has only the next power of ten to offer
    let found := (List.range (greatestLength + 1)).findSome? fun (length : Nat) =>
      x.onGrid (top - length)
    found.getD x.exactDecimal

end Binary64

end StyleSlots
