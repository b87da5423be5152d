/-!
# Texts

* `Text.isBlank`, `Text.trimStart`: blanks, and cutting them off.
* `Text.natural?`: decimal numerals of numbers that fit 64 bits.
* `Text.padRight`, `Text.padLeft`, `Text.keepEnd`: columns of a fixed width.
-/

namespace Provision

namespace Text

/-! ## Blanks -/

/-- Whether a character has the property White_Space, and so is a blank of some script. -/
def isBlank (c : Char) : Bool :=
  let n := c.toNat
  (0x09 ≤ n && n ≤ 0x0d) || (0x2000 ≤ n && n ≤ 0x200a)
    || [0x20, 0x85, 0xa0, 0x1680, 0x2028, 0x2029, 0x202f, 0x205f, 0x3000].contains n

/-- The text after the blanks at its start. -/
def trimStart (cs : List Char) : List Char := cs.dropWhile isBlank

/-! ## Natural numbers -/

/-- The number of a decimal numeral: digits, perhaps after a plus, of at most 64 bits. -/
def natural? (s : String) : Option Nat :=
  let digits := match s.toList with
    | '+' :: cs => cs
    | cs => cs
  if digits.isEmpty || digits.any (fun c => c < '0' || '9' < c) then none
  else
    let n := digits.foldl (fun n c => 10 * n + (c.toNat - '0'.toNat)) 0
    if n < UInt64.size then some n else none

/-! ## Columns, counted in characters -/

/-- The text with blanks after it up to the given width. -/
def padRight (width : Nat) (s : String) : String :=
  String.ofList (s.toList ++ List.replicate (width - s.length) ' ')

/-- The text with blanks before it up to the given width. -/
def padLeft (width : Nat) (s : String) : String :=
  String.ofList (List.replicate (width - s.length) ' ' ++ s.toList)

/-- The end of a text that is too wide, after three dots; the dots alone where there is no room
for more. -/
def keepEnd (width : Nat) (s : String) : String :=
  let cs := s.toList
  if cs.length ≤ width then s
  else if width ≤ 3 then "..."
  else "..." ++ String.ofList (cs.drop (cs.length - (width - 3)))

end Text

end Provision
