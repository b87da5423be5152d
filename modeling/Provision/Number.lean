import Provision.Double.Shortest

/-!
# Numbers

A number is an integer of at most 64 bits or a double, and the two kinds never compare equal.
`Numeral.number?` reads a decimal numeral.
-/

namespace Provision

/-- An integer or a double. -/
inductive Number where
  | int (i : Int)
  | float (x : Double)
deriving DecidableEq, Inhabited

namespace Number

/-- Equality within a kind, doubles by value. -/
def same : Number → Number → Bool
  | .int i, .int j => i = j
  | .float x, .float y => x.same y
  | _, _ => false

theorem same_refl (n : Number) : same n n = true := by
  cases n <;> simp [same, Double.same_refl]

/-- The text of a number with a finite value. -/
def text : Number → String
  | .int i => toString i
  | .float x => x.text

end Number

/-- A decimal numeral by its digits, most significant first. -/
structure Numeral where
  negative : Bool
  whole : List Nat
  /-- The digits after the point, if there is one. -/
  fraction : Option (List Nat)
  exponent : Option Int

namespace Numeral

/-- The digits appended to `m` for as long as 64 bits hold the result, and those left over. -/
def absorb (m : Nat) : List Nat → Nat × List Nat
  | [] => (m, [])
  | d :: ds => if m * 10 + d < UInt64.size then absorb (m * 10 + d) ds else (m, d :: ds)

/-- The double nearest `10 ^ e`. -/
def power (e : Nat) : Double := .ofRatio false (Nat.pow 10 e) 1

/-- `x * 10 ^ e` by one product, or by quotients of which each divides by at most `10 ^ 308`; the
result of three of the largest quotients is zero. -/
def scale (x : Double) (e : Int) : Option Double :=
  if 308 < e then if x.isZero then some x else none
  else if 0 ≤ e then
    let y := x.mul (power e.toNat)
    if y.isFinite then some y else none
  else go 3 x (-e).toNat
where
  go : Nat → Double → Nat → Option Double
    | 0, x, _ => some x
    | n + 1, x, e => if e ≤ 308 then some (x.div (power e)) else go n (x.div (power 308)) (e - 308)

/-- The number a numeral stands for: an integer if it is written as one and 64 bits hold it, else
a double of its first digits that fit 64 bits, scaled. Nothing beyond the range of doubles. -/
def number? (n : Numeral) : Option Number :=
  let (m, left) := absorb 0 n.whole
  match n.fraction, n.exponent, left, n.negative with
  | none, none, [], false => some (.int m)
  | none, none, [], true =>
    if 0 < m ∧ 2 * m ≤ UInt64.size then some (.int (-m)) else some (.float (.ofRatio true m 1))
  | fraction, exponent, left, negative =>
    let ds := fraction.getD []
    let (m, unread) := absorb m ds
    let e := (left.length : Int) - (ds.length - unread.length : Nat) + exponent.getD 0
    (scale (.ofRatio false m 1) e).map fun x => .float (x.withSign negative)

end Numeral

end Provision
