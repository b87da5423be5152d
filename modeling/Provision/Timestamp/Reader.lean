import Provision.Text
import Provision.Timestamp

/-!
# Reading timestamps

`Timestamp.ofText?` reads RFC 3339 with some freedom: numbers may lack their leading zeros and
stand after blanks, a blank may stand for the `T`, and the zone is `Z`, `UTC` or an offset whose
colon may be missing. Digits of a second beyond the ninth are cut.
-/

namespace Provision

namespace Timestamp

open Text (trimStart isBlank)

/-- The number that decimal digits spell. -/
def number (ds : List Char) : Nat := Nat.ofDigitChars 10 ds 0

/-- From one up to `most` digits after blanks, and the text after them. -/
def readNumber (most : Nat) (cs : List Char) : Option (Nat × List Char) :=
  let cs := trimStart cs
  let ds := (cs.take most).takeWhile Char.isDigit
  if ds.isEmpty then none else some (number ds, cs.drop ds.length)

/-- A year: four digits at most, or any number of digits after a sign. -/
def readYear (cs : List Char) : Option (Int × List Char) :=
  let signed (sign : Int) (cs : List Char) : Option (Int × List Char) :=
    let ds := cs.takeWhile Char.isDigit
    if ds.isEmpty then none else some (sign * number ds, cs.drop ds.length)
  match trimStart cs with
  | '-' :: cs => signed (-1) cs
  | '+' :: cs => signed 1 cs
  | cs => do
    let (n, rest) ← readNumber 4 cs
    return (n, rest)

/-- The text after the given character, which may follow blanks. -/
def readMark (mark : Char) (cs : List Char) : Option (List Char) :=
  match trimStart cs with
  | c :: cs => if c = mark then some cs else none
  | [] => none

/-- The nanoseconds after a point; none without a point. -/
def readFraction : List Char → Option (Nat × List Char)
  | '.' :: cs =>
    let ds := (cs.take 9).takeWhile Char.isDigit
    if ds.isEmpty then none
    else some (number ds * Nat.pow 10 (9 - ds.length), cs.dropWhile Char.isDigit)
  | cs => some (0, cs)

/-- The offset of the zone from UTC in minutes. -/
def readZone (cs : List Char) : Option (Int × List Char) :=
  let hours (sign : Int) : List Char → Option (Int × List Char)
    | a :: b :: cs => do
      guard (a.isDigit && b.isDigit)
      match cs.dropWhile (fun c => c = ':' || isBlank c) with
      | c :: d :: rest =>
        guard ('0' ≤ c && c ≤ '5' && d.isDigit)
        return (sign * (60 * number [a, b] + number [c, d] : Nat), rest)
      | _ => none
    | _ => none
  match trimStart cs with
  | 'Z' :: rest | 'z' :: rest => some (0, rest)
  | '+' :: cs => hours 1 cs
  | '-' :: cs | '−' :: cs => hours (-1) cs
  | a :: b :: c :: rest =>
    if [a.toLower, b.toLower, c.toLower] = ['u', 't', 'c'] then some (0, rest) else none
  | _ => none

/-- Reads a moment and moves it to UTC. -/
def ofText? (s : String) : Option Timestamp := do
  let (year, cs) ← readYear s.toList
  let (month, cs) ← readMark '-' cs >>= readNumber 2
  let (day, cs) ← readMark '-' cs >>= readNumber 2
  let cs ← match cs with
    | c :: cs => if c = 'T' ∨ c = 't' ∨ c = ' ' then some cs else none
    | [] => none
  let (hour, cs) ← readNumber 2 cs
  let (minute, cs) ← readMark ':' cs >>= readNumber 2
  let (second, cs) ← readMark ':' cs >>= readNumber 2
  let (nanosecond, cs) ← readFraction cs
  let (offset, cs) ← readZone cs
  guard (trimStart cs).isEmpty
  guard (offset.natAbs < 1440)
  let t ← of? year month day hour minute second nanosecond
  t.shift offset

end Timestamp

end Provision
