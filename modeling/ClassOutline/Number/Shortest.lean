/-
  ClassOutline.Number.Shortest
  ────────────────────────────────
  **THE FEWEST DECIMAL DIGITS THAT READ BACK AS A NUMBER.**

  The reals that round to a number form an interval: half a step to either
  side, a quarter step below a power of two, the ends included when the
  mantissa is even.  `shortest?` walks the decimal grids `10^k` from coarse to
  fine; the first grid with a point in the interval has the fewest digits, and
  one of the number's two neighbours on it is the nearest such point.  All of
  it is exact arithmetic on natural numbers.
-/
import ClassOutline.Number.Binary64
import ClassOutline.Text.Basic

namespace ClassOutline

/-- A decimal number `digits · 10^scale`. -/
structure Decimal where
  digits : Nat
  scale : Int
  deriving DecidableEq, Repr

/-- The decimal number without an exponent: zeros fill up to the units or the point. -/
def Decimal.positional (d : Decimal) : Text :=
  if 0 ≤ d.scale then Text.ofNat (d.digits * Nat.pow 10 d.scale.toNat)
  else
    let places := (-d.scale).toNat
    let written := Text.ofNat d.digits
    let padded := List.replicate (places + 1 - written.length) '0' ++ written
    padded.take (padded.length - places) ++ '.' :: padded.drop (padded.length - places)

namespace Binary64

/-! ## §1. The interval of a number, in quarter steps. -/

/-- The number in quarter steps. -/
def center (x : Binary64) : Nat := 4 * x.mantissa

/-- The lower end of the interval.  Below a power of two the steps are half as long. -/
def lower (x : Binary64) : Nat :=
  if x.mantissa = Nat.pow 2 52 ∧ 0 < x.exponent then x.center - 1 else x.center - 2

/-- The upper end of the interval. -/
def upper (x : Binary64) : Nat := x.center + 2

/-- A quarter step as a multiple of `10^k`: numerator and denominator. -/
def quarterStep (x : Binary64) (k : Int) : Nat × Nat :=
  (Nat.pow 2 (x.exponent - 1076) * Nat.pow 10 (-k).toNat,
    Nat.pow 2 (1076 - x.exponent) * Nat.pow 10 k.toNat)

/-- `point · 10^k` lies in the interval. -/
def reads (x : Binary64) (k : Int) (point : Nat) : Bool :=
  let (num, den) := x.quarterStep k
  if x.mantissa % 2 = 0 then x.lower * num ≤ point * den && point * den ≤ x.upper * num
  else x.lower * num < point * den && point * den < x.upper * num

/-! ## §2. The nearest point of the coarsest grid. -/

/-- The point of the grid `10^k` that lies in the interval, the nearer one of two; of two
equally near ones the larger. -/
def nearestOnGrid? (x : Binary64) (k : Int) : Option Decimal :=
  let (num, den) := x.quarterStep k
  let below := x.center * num / den
  let point (n : Nat) : Option Decimal := if x.reads k n then some ⟨n, k⟩ else none
  match point below, point (below + 1) with
  | some low, some high =>
    if x.center * num - below * den < (below + 1) * den - x.center * num then some low
    else some high
  | some low, none => some low
  | none, high => high

/-- The fewest digits that read back as the positive number `x`.  Every grid from `10^309`,
above the largest number, to `10^-344`, which is finer than any interval, is tried. -/
def shortest? (x : Binary64) : Option Decimal :=
  (List.range 654).findSome? fun i => x.nearestOnGrid? (309 - Int.ofNat i)

/-! ## §3. The written form. -/

/-- The number as a decimal literal, without an exponent: an integral number exactly and with
one zero behind the point, any other with the fewest digits that read back. -/
def display (x : Binary64) : Text :=
  let sign : Text := if x.isNegative then ['-'] else []
  if x.isFinite then
    match x.natural? with
    | some n => sign ++ Text.ofNat n ++ ".0".toList
    | none => sign ++ (x.shortest?.map Decimal.positional).getD []
  else if x.isInfinite then sign ++ "inf".toList
  else "NaN".toList

end Binary64

end ClassOutline
