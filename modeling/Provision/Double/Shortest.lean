import Provision.Double

/-!
# Shortest digits of a double

`Double.shortest` finds the decimal with the fewest digits that rounds to a given double, the
nearest one if several have that many. For a count of digits only the two neighbours of the value
on the decimal grid can qualify, so it tries the counts 1 to 17 in turn. `Double.text` lays the
digits out.
-/

namespace Provision

namespace Double

/-- The largest `p` with `10 ^ p ≤ num / den`. -/
def floorLog10 (num den : Nat) : Int :=
  let guess : Int := (Nat.toDigits 10 num).length - (Nat.toDigits 10 den).length
  let (n, d) := powerRatio 10 guess
  if den * n ≤ num * d then guess else guess - 1

/-- The decimals that round to a double, in units of a quarter of its last bit. -/
structure Interval where
  low : Nat
  value : Nat
  high : Nat
  /-- The ends round to the double too. -/
  closed : Bool
  /-- The unit, as a numerator and a denominator. -/
  unit : Nat × Nat

/-- The interval that rounds to `x`: half of its last bit to each side, and below a power of two
a quarter. -/
def interval (x : Double) : Interval where
  low := 4 * x.significand - (if x.fraction = 0 ∧ 1 < x.exponentField then 1 else 2)
  value := 4 * x.significand
  high := 4 * x.significand + 2
  closed := x.significand % 2 = 0
  unit := powerRatio 2 (x.exponent - 2)

/-- Whether `c * 10 ^ k` lies in the interval. -/
def Interval.holds (r : Interval) (c : Nat) (k : Int) : Bool :=
  let (n, d) := powerRatio 10 k
  let a := c * n * r.unit.2
  let low := r.low * r.unit.1 * d
  let high := r.high * r.unit.1 * d
  if r.closed then low ≤ a && a ≤ high else low < a && a < high

/-- The neighbour of the value on the grid of multiples of `10 ^ k` that lies in the interval; of
two the nearer, of two as near the even one. -/
def Interval.neighbour? (r : Interval) (k : Int) : Option Nat :=
  let (n, d) := powerRatio 10 k
  let step := n * r.unit.2
  let v := r.value * r.unit.1 * d
  let c := v / step
  let below := v - c * step
  let above := (c + 1) * step - v
  match r.holds c k, r.holds (c + 1) k with
  | true, true => if below < above ∨ (below = above ∧ c % 2 = 0) then some c else some (c + 1)
  | true, false => some c
  | false, true => some (c + 1)
  | false, false => none

/-- The shortest decimal `c * 10 ^ k` that rounds to the magnitude of `x`, which is not zero. -/
def shortest (x : Double) : Nat × Int :=
  let r := x.interval
  let p := floorLog10 (r.value * r.unit.1) r.unit.2
  let counts : List Int := [1, 2, 3, 4, 5, 6, 7, 8, 9, 10, 11, 12, 13, 14, 15, 16, 17]
  let tries := counts.filterMap fun n => (r.neighbour? (p - n + 1)).map (·, p - n + 1)
  tries.head?.getD (0, 0)

/-- The digits without the zeros at their end. -/
private def trimZeros (ds : List Char) : List Char := (ds.reverse.dropWhile (· = '0')).reverse

/-- Digits whose first stands for `10 ^ top`, positional when `top` is from -5 to 15. -/
def layOut (ds : List Char) (top : Int) : String :=
  let zeros (n : Int) := List.replicate n.toNat '0'
  let tail (r : List Char) : List Char := if r.isEmpty then [] else '.' :: r
  if top < -5 ∨ 15 < top then
    String.ofList (ds.take 1 ++ tail (ds.drop 1)) ++ "e" ++ (if top < 0 then "-" else "+")
      ++ toString top.natAbs
  else if top < 0 then String.ofList ('0' :: '.' :: zeros (-top - 1) ++ ds)
  else
    let whole := ds.take (top.toNat + 1)
    let rest := ds.drop (top.toNat + 1)
    String.ofList (whole ++ zeros (top + 1 - whole.length) ++ '.' :: (if rest.isEmpty then ['0'] else rest))

/-- The text of a finite double: its shortest digits, always with a point or an exponent. -/
def text (x : Double) : String :=
  let sign := if x.isNegative then "-" else ""
  if x.isZero then sign ++ "0.0"
  else
    let (c, k) := x.shortest
    let ds := Nat.toDigits 10 c
    sign ++ layOut (trimZeros ds) (k + ds.length - 1)

end Double

end Provision
