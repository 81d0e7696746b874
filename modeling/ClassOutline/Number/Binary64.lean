/-
  ClassOutline.Number.Binary64
  ────────────────────────────────
  **BINARY FLOATING-POINT NUMBERS AS BIT PATTERNS.**

  A `Binary64` is its 64 bits: a sign, 11 bits of exponent, 52 bits of
  fraction.  A finite one stands for `± m · 2^(e - 1074)` with natural numbers
  `m` and `e` (`mantissa`, `exponent`), so everything about it is decided in
  natural numbers.  `ofRatio` rounds a fraction to the nearest number, a tie to
  the even one; `ofDecimal` reads decimal digits that way.
-/
namespace ClassOutline

/-- A binary floating-point number of 64 bits. -/
structure Binary64 where
  bits : UInt64
  deriving DecidableEq, Repr

namespace Binary64

/-! ## §1. The fields of a bit pattern. -/

/-- The bit pattern of positive infinity. -/
def infinityBits : Nat := 0x7ff0000000000000

/-- The bit pattern without its sign. -/
def magnitude (x : Binary64) : Nat := x.bits.toNat % Nat.pow 2 63

/-- The sign bit is set. -/
def isNegative (x : Binary64) : Bool := Nat.pow 2 63 ≤ x.bits.toNat

/-- Neither an infinity nor a NaN. -/
def isFinite (x : Binary64) : Bool := x.magnitude < infinityBits

/-- An infinity of either sign. -/
def isInfinite (x : Binary64) : Bool := x.magnitude = infinityBits

/-- The steps of `2^-1074` between neighbours, as a power of two. -/
def exponent (x : Binary64) : Nat := x.magnitude / Nat.pow 2 52 - 1

/-- The integer that, times `2^(exponent - 1074)`, is the number's absolute value. -/
def mantissa (x : Binary64) : Nat :=
  if x.magnitude < Nat.pow 2 52 then x.magnitude else Nat.pow 2 52 + x.magnitude % Nat.pow 2 52

/-- The sign and the bits below it. -/
def ofMagnitude (negative : Bool) (magnitude : Nat) : Binary64 :=
  ⟨UInt64.ofNat (if negative then Nat.pow 2 63 + magnitude else magnitude)⟩

/-! ## §2. Rounding to the nearest number. -/

/-- `num / den` rounded to the nearest integer, a tie to the even one. -/
def roundHalfEven (num den : Nat) : Nat :=
  let q := num / den
  let r := num % den
  if den < 2 * r ∨ (2 * r = den ∧ q % 2 = 1) then q + 1 else q

/-- `num / den` in steps of `2^(e - 1074)`, rounded. -/
def mantissaAt (e num den : Nat) : Nat :=
  roundHalfEven (num * Nat.pow 2 (1074 - e)) (den * Nat.pow 2 (e - 1074))

/-- The exponent at which `num / den` has 53 binary digits, or 0 if it has fewer at every
exponent. -/
def exponentOf (num den : Nat) : Nat :=
  -- `guess` is right or one too large, for the quotient of two numbers with `a` and `b`
  -- binary digits has `a - b` or one more.
  let guess := num.log2 + 1074 - (den.log2 + 52)
  if num * Nat.pow 2 (1074 - guess) < den * Nat.pow 2 (guess - 1074) * Nat.pow 2 52 then guess - 1
  else guess

/-- The magnitude nearest to `num / den`.  A mantissa rounded up to `2^53` is the next
exponent's first one, in the pattern as in value, and what lies beyond the last pattern is
infinite. -/
def magnitudeOfRatio (num den : Nat) : Nat :=
  if num = 0 then 0
  else
    let e := exponentOf num den
    min infinityBits (e * Nat.pow 2 52 + mantissaAt e num den)

/-- The number nearest to `± num / den`. -/
def ofRatio (negative : Bool) (num den : Nat) : Binary64 :=
  ofMagnitude negative (magnitudeOfRatio num den)

/-- The number nearest to `± digits · 10^scale`. -/
def ofDecimal (negative : Bool) (digits : Nat) (scale : Int) : Binary64 :=
  ofRatio negative (digits * Nat.pow 10 scale.toNat) (Nat.pow 10 (-scale).toNat)

/-! ## §3. The integral numbers. -/

/-- The number as a natural number, its sign apart, if it is integral. -/
def natural? (x : Binary64) : Option Nat :=
  if !x.isFinite then none
  else if 1074 ≤ x.exponent then some (x.mantissa * Nat.pow 2 (x.exponent - 1074))
  else if x.mantissa % Nat.pow 2 (1074 - x.exponent) = 0 then
    some (x.mantissa / Nat.pow 2 (1074 - x.exponent))
  else none

end Binary64

end ClassOutline
