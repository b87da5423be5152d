import Provision.Json
import Provision.Timestamp

/-!
# TOML scalars

Numbers, truth values and dates, which TOML writes without quotes. `Toml.scalar?` reads the whole
text of one of them. A date becomes an object with its text under a reserved name, and a double
that is not finite becomes null.
-/

namespace Provision

namespace Toml

/-! ## Numbers -/

/-- The value of a digit in base `base`, at most 16. -/
def digit? (base : Nat) (c : Char) : Option Nat :=
  let n :=
    if '0' ≤ c ∧ c ≤ '9' then c.toNat - '0'.toNat
    else if 'a' ≤ c ∧ c ≤ 'f' then c.toNat - 'a'.toNat + 10
    else if 'A' ≤ c ∧ c ≤ 'F' then c.toNat - 'A'.toNat + 10
    else base
  if n < base then some n else none

/-- Digits in groups between underscores, no group of them empty. -/
def digits? (base : Nat) (cs : List Char) : Option (List Nat) := do
  let groups ← (cs.splitOn '_').mapM fun group => do
    guard (!group.isEmpty)
    group.mapM (digit? base)
  return groups.flatten

/-- Decimal digits without a zero before others. -/
def whole? (cs : List Char) : Option (List Nat) := do
  let ds ← digits? 10 cs
  guard (ds.length = 1 ∨ ds.head? ≠ some 0)
  return ds

/-- The number of some digits. -/
def valueOf (base : Nat) (ds : List Nat) : Nat := ds.foldl (fun n d => base * n + d) 0

/-- Whether an integer has at most `bits` bits, with a sign or without. -/
def fits (bits : Nat) (n : Int) : Bool := -(2 * n) ≤ Nat.pow 2 bits && n < Nat.pow 2 bits

/-- An integer of at most 128 bits; one of more than 64 bits has no JSON form. -/
def integer? (n : Int) : Option Json :=
  if fits 64 n then some (.number (.int n))
  else if fits 128 n then some .unrepresentable
  else none

/-- A double, if it is not out of range. -/
def finite? (x : Double) : Option Json := if x.isFinite then some (.number (.float x)) else none

/-- A sign before a decimal number, and the text after it. -/
def readSign : List Char → Bool × List Char
  | '-' :: cs => (true, cs)
  | '+' :: cs => (false, cs)
  | cs => (false, cs)

/-- Whether a character may stand in groups of decimal digits. -/
def isGrouped (c : Char) : Bool := c.isDigit || c = '_'

/-- The exponent of a decimal number, if it has one, up to the end of the text. -/
def exponent? : List Char → Option (Option Int)
  | [] => some none
  | e :: cs => do
    guard (e = 'e' ∨ e = 'E')
    let (negative, cs) := readSign cs
    let n : Int := valueOf 10 (← digits? 10 cs)
    return some (if negative then -n else n)

/-- A decimal number: an integer, unless it has a fraction or an exponent. -/
def decimal? (cs : List Char) : Option Json := do
  let (negative, cs) := readSign cs
  let ws ← whole? (cs.takeWhile isGrouped)
  match cs.dropWhile isGrouped with
  | '.' :: cs =>
    let fs ← digits? 10 (cs.takeWhile isGrouped)
    let e ← exponent? (cs.dropWhile isGrouped)
    finite? (.ofDecimal negative (valueOf 10 (ws ++ fs)) (e.getD 0 - fs.length))
  | cs => match ← exponent? cs with
    | some e => finite? (.ofDecimal negative (valueOf 10 ws) e)
    | none => integer? (if negative then -valueOf 10 ws else valueOf 10 ws)

/-! ## Dates -/

/-- The name that a date stands under. -/
def dateName : String := "$__toml_private_datetime"

/-- A number of exactly `count` digits that `fits`, and the text after it. -/
def readField (count : Nat) (fits : Nat → Bool) (cs : List Char) : Option (Nat × List Char) := do
  let ds ← (cs.take count).mapM (digit? 10)
  guard (ds.length = count ∧ fits (valueOf 10 ds))
  return (valueOf 10 ds, cs.drop count)

/-- The text after a character. -/
def readMark (mark : Char) : List Char → Option (List Char)
  | c :: cs => if c = mark then some cs else none
  | [] => none

/-- A date and the text after it. -/
def readDate (cs : List Char) : Option (String × List Char) := do
  let (year, cs) ← readField 4 (fun _ => true) cs
  let cs ← readMark '-' cs
  let (month, cs) ← readField 2 (fun n => 1 ≤ n && n ≤ 12) cs
  let cs ← readMark '-' cs
  let (day, cs) ← readField 2 (fun n => 1 ≤ n && n ≤ Timestamp.daysIn year month) cs
  return (Timestamp.padded 4 year ++ "-" ++ Timestamp.padded 2 month ++ "-"
    ++ Timestamp.padded 2 day, cs)

/-- The digits of a fraction: nine at most, and none of the zeros at their end but a first one. -/
def fractionDigits (ds : List Char) : String :=
  let ds := ((ds.take 9).reverse.dropWhile (· = '0')).reverse
  if ds.isEmpty then "0" else String.ofList ds

/-- The seconds of a time, if they are written, and the text after them. -/
def readSeconds : List Char → Option (String × List Char)
  | ':' :: cs => do
    let (second, cs) ← readField 2 (· ≤ 60) cs
    match cs with
    | '.' :: cs =>
      let ds := cs.takeWhile Char.isDigit
      guard (!ds.isEmpty)
      return (":" ++ Timestamp.padded 2 second ++ "." ++ fractionDigits ds,
        cs.dropWhile Char.isDigit)
    | cs => return (":" ++ Timestamp.padded 2 second, cs)
  | cs => some ("", cs)

/-- A time of day and the text after it. -/
def readTime (cs : List Char) : Option (String × List Char) := do
  let (hour, cs) ← readField 2 (· < 24) cs
  let cs ← readMark ':' cs
  let (minute, cs) ← readField 2 (· < 60) cs
  let (seconds, cs) ← readSeconds cs
  return (Timestamp.padded 2 hour ++ ":" ++ Timestamp.padded 2 minute ++ seconds, cs)

/-- The offset from UTC at the end of a text, if there is one. -/
def zone? : List Char → Option String
  | [] => some ""
  | ['Z'] | ['z'] => some "Z"
  | sign :: cs => do
    guard (sign = '+' ∨ sign = '-')
    let (hour, cs) ← readField 2 (· < 24) cs
    let cs ← readMark ':' cs
    let (minute, cs) ← readField 2 (· < 60) cs
    guard cs.isEmpty
    return (if sign = '-' ∧ 0 < hour + minute then "-" else "+") ++ Timestamp.padded 2 hour
      ++ ":" ++ Timestamp.padded 2 minute

/-- A date, a time of day, or a date with a time of day and perhaps an offset. -/
def date? (cs : List Char) : Option String :=
  match readDate cs with
  | some (date, []) => some date
  | some (date, c :: cs) => do
    guard (c = 'T' ∨ c = 't' ∨ c = ' ')
    let (time, cs) ← readTime cs
    return date ++ "T" ++ time ++ (← zone? cs)
  | none => do
    let (time, cs) ← readTime cs
    guard cs.isEmpty
    return time

/-! ## Scalars -/

/-- The scalar that a text without quotes is. -/
def scalar? (cs : List Char) : Option Json :=
  match cs with
  | ['t', 'r', 'u', 'e'] => some (.bool true)
  | ['f', 'a', 'l', 's', 'e'] => some (.bool false)
  | '0' :: 'x' :: ds => do integer? (valueOf 16 (← digits? 16 ds))
  | '0' :: 'o' :: ds => do integer? (valueOf 8 (← digits? 8 ds))
  | '0' :: 'b' :: ds => do integer? (valueOf 2 (← digits? 2 ds))
  | cs =>
    if (readSign cs).2 = ['i', 'n', 'f'] ∨ (readSign cs).2 = ['n', 'a', 'n'] then some .null
    else match decimal? cs with
      | some j => some j
      | none => (date? cs).map fun s => .object [(dateName, .string s)]

end Toml

end Provision
