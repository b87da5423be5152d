/-!
# Doubles

Numbers of the 64-bit binary format, as bit patterns with exact arithmetic on natural numbers.

* `Double.ofRatio` rounds a ratio to the nearest double, ties to even, and beyond the range to an
  infinity. It is the only rounding: sums of digits, products and quotients all go through it.
* `Double.same` compares by value, so the two zeros are the same.
-/

namespace Provision

/-- A double as its 64 bits: sign, 11 bits of exponent, 52 bits of fraction. -/
structure Double where
  bits : UInt64
deriving DecidableEq, Inhabited

namespace Double

/-- The value of the sign bit. -/
def signBit : Nat := 0x8000000000000000

/-- The value of the lowest bit of the exponent. -/
def exponentBit : Nat := 0x10000000000000

/-- Whether the sign bit is set. -/
def isNegative (x : Double) : Bool := signBit ≤ x.bits.toNat

/-- The biased exponent. -/
def exponentField (x : Double) : Nat := x.bits.toNat % signBit / exponentBit

/-- The bits below the exponent. -/
def fraction (x : Double) : Nat := x.bits.toNat % exponentBit

/-- Neither an infinity nor not-a-number. -/
def isFinite (x : Double) : Bool := x.exponentField < 2047

/-- Either zero. -/
def isZero (x : Double) : Bool := x.bits.toNat % signBit = 0

/-- The integer `m` of the magnitude `m * 2 ^ exponent`. -/
def significand (x : Double) : Nat :=
  if x.exponentField = 0 then x.fraction else exponentBit + x.fraction

/-- The power of two that scales `significand`. -/
def exponent (x : Double) : Int := (max x.exponentField 1 : Nat) - 1075

/-- Equality of values: the zeros are equal, every other value has one pattern. -/
def same (x y : Double) : Bool := x = y || (x.isZero && y.isZero)

theorem same_refl (x : Double) : same x x = true := by simp [same]

/-! ## Powers as ratios -/

/-- `b ^ e` as a numerator and a denominator. -/
def powerRatio (b : Nat) (e : Int) : Nat × Nat := (Nat.pow b e.toNat, Nat.pow b (-e).toNat)

/-- The magnitude as a numerator and a denominator. -/
def magnitude (x : Double) : Nat × Nat :=
  let (n, d) := powerRatio 2 x.exponent
  (x.significand * n, d)

/-! ## Rounding -/

/-- The infinity of the given sign. -/
def infinity (negative : Bool) : Double :=
  ⟨UInt64.ofNat ((if negative then signBit else 0) + 2047 * exponentBit)⟩

/-- The quotient rounded to an integer, a half to the even neighbour. -/
def roundHalfEven (num den : Nat) : Nat :=
  let q := num / den
  let r := 2 * (num % den)
  if den < r ∨ (r = den ∧ q % 2 = 1) then q + 1 else q

/-- The power of two at the last bit of the double nearest `num / den`. -/
def lastBit (num den : Nat) : Int :=
  let guess : Int := (Nat.log2 num : Int) - Nat.log2 den - 52
  let (n, d) := powerRatio 2 guess
  max (-1074) (if num * d < den * n * exponentBit then guess - 1 else guess)

/-- The double nearest `± num / den`, ties to even. -/
def ofRatio (negative : Bool) (num den : Nat) : Double :=
  let sign := if negative then signBit else 0
  if num = 0 then ⟨UInt64.ofNat sign⟩
  else
    let q := lastBit num den
    let (n, d) := powerRatio 2 q
    let m := roundHalfEven (num * d) (den * n)
    ⟨UInt64.ofNat (sign + min ((q + 1074).toNat * exponentBit + m) (2047 * exponentBit))⟩

/-- The double nearest `± m * 10 ^ e`; exponents far out of range are settled without the power. -/
def ofDecimal (negative : Bool) (m : Nat) (e : Int) : Double :=
  let top := (Nat.toDigits 10 m).length + e
  if m = 0 ∨ top < -330 then ofRatio negative 0 1
  else if 330 < top then infinity negative
  else
    let (n, d) := powerRatio 10 e
    ofRatio negative (m * n) d

/-- The product of finite doubles. -/
def mul (x y : Double) : Double :=
  let (a, b) := x.magnitude
  let (c, d) := y.magnitude
  ofRatio (x.isNegative != y.isNegative) (a * c) (b * d)

/-- The quotient of finite doubles, the divisor not zero. -/
def div (x y : Double) : Double :=
  let (a, b) := x.magnitude
  let (c, d) := y.magnitude
  ofRatio (x.isNegative != y.isNegative) (a * d) (b * c)

/-- The same magnitude with the given sign. -/
def withSign (negative : Bool) (x : Double) : Double :=
  ⟨UInt64.ofNat ((if negative then signBit else 0) + x.bits.toNat % signBit)⟩

end Double

end Provision
