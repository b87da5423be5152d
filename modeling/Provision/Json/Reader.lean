import Provision.Json

/-!
# Reading JSON

`Json.parse` reads a whole text as one document. It accepts exactly the grammar of RFC 8259; names
that stand twice, unpaired surrogates and numbers out of range are left to whoever reads the
document.
-/

namespace Provision

namespace Json

/-- The text after blanks. -/
def skipBlanks : List Char → List Char
  | [] => []
  | c :: cs => if c = ' ' ∨ c = '\n' ∨ c = '\t' ∨ c = '\r' then skipBlanks cs else c :: cs

/-- The value of a hexadecimal digit. -/
def hexValue? (c : Char) : Option Nat :=
  if '0' ≤ c ∧ c ≤ '9' then some (c.toNat - '0'.toNat)
  else if 'a' ≤ c ∧ c ≤ 'f' then some (c.toNat - 'a'.toNat + 10)
  else if 'A' ≤ c ∧ c ≤ 'F' then some (c.toNat - 'A'.toNat + 10)
  else none

/-- The number that hexadecimal digits spell. -/
def hexNumber? (cs : List Char) : Option Nat :=
  cs.foldlM (fun n c => (hexValue? c).map (16 * n + ·)) 0

/-- The character after a backslash, other than `u`. -/
def unescape? : Char → Option Nat
  | '"' => some 0x22
  | '\\' => some 0x5c
  | '/' => some 0x2f
  | 'b' => some 0x08
  | 'f' => some 0x0c
  | 'n' => some 0x0a
  | 'r' => some 0x0d
  | 't' => some 0x09
  | _ => none

/-- The code points up to the closing quote, halves of surrogate pairs on their own, and the text
after the quote. -/
def readUnits : List Char → Option (List Nat × List Char)
  | [] => none
  | '"' :: cs => some ([], cs)
  | '\\' :: 'u' :: a :: b :: c :: d :: cs => do
    let n ← hexNumber? [a, b, c, d]
    let (ns, rest) ← readUnits cs
    return (n :: ns, rest)
  | '\\' :: c :: cs => do
    let n ← unescape? c
    let (ns, rest) ← readUnits cs
    return (n :: ns, rest)
  | c :: cs =>
    if c.toNat < 0x20 ∨ c = '\\' then none
    else do
      let (ns, rest) ← readUnits cs
      return (c.toNat :: ns, rest)

/-- The text of code points, surrogate pairs joined; nothing if a half stands alone. -/
def joinUnits? : List Nat → Option (List Char)
  | [] => some []
  | [n] => if 0xd800 ≤ n ∧ n < 0xe000 then none else some [Char.ofNat n]
  | n :: m :: ns =>
    if 0xd800 ≤ n ∧ n < 0xdc00 then
      if 0xdc00 ≤ m ∧ m < 0xe000 then
        (joinUnits? ns).map (Char.ofNat (0x10000 + 0x400 * (n - 0xd800) + (m - 0xdc00)) :: ·)
      else none
    else if 0xdc00 ≤ n ∧ n < 0xe000 then none
    else (joinUnits? (m :: ns)).map (Char.ofNat n :: ·)

/-- A string after its opening quote; its text is missing if a surrogate stands alone. -/
def readString (cs : List Char) : Option (Option String × List Char) := do
  let (ns, rest) ← readUnits cs
  return ((joinUnits? ns).map String.ofList, rest)

/-- The digits at the start of a text. -/
def readDigits (cs : List Char) : List Nat × List Char :=
  let digit (c : Char) : Bool := '0' ≤ c && c ≤ '9'
  ((cs.takeWhile digit).map fun c => c.toNat - '0'.toNat, cs.dropWhile digit)

/-- The number of some digits. -/
def digitsValue (ds : List Nat) : Nat := ds.foldl (fun n d => 10 * n + d) 0

/-- The point and the digits after it, if there is a point. -/
def readFraction : List Char → Option (Option (List Nat) × List Char)
  | '.' :: cs => match readDigits cs with
    | ([], _) => none
    | (ds, rest) => some (some ds, rest)
  | cs => some (none, cs)

/-- The exponent, if there is one. -/
def readExponent : List Char → Option (Option Int × List Char)
  | e :: cs =>
    if e = 'e' ∨ e = 'E' then
      let (negative, cs) := match cs with
        | '-' :: cs => (true, cs)
        | '+' :: cs => (false, cs)
        | cs => (false, cs)
      match readDigits cs with
      | ([], _) => none
      | (ds, rest) =>
        let n : Int := digitsValue ds
        some (some (if negative then -n else n), rest)
    else some (none, e :: cs)
  | [] => some (none, [])

/-- A numeral: no zero before other digits, digits on both sides of a point. -/
def readNumeral (cs : List Char) : Option (Numeral × List Char) := do
  let (negative, cs) := match cs with
    | '-' :: cs => (true, cs)
    | cs => (false, cs)
  let (whole, cs) := readDigits cs
  if whole.isEmpty ∨ (whole.head? = some 0 ∧ 1 < whole.length) then none
  else
    let (fraction, cs) ← readFraction cs
    let (exponent, cs) ← readExponent cs
    return (⟨negative, whole, fraction, exponent⟩, cs)

/-- The object of fields whose names all have a text. -/
def ofFields (fields : List (Option String × Json)) : Json :=
  match fields.mapM fun f => f.1.map (·, f.2) with
  | some fs => .object fs
  | none => .unrepresentable

mutual

/-- A document at the start of a text, at most `fuel` steps deep and wide. -/
def readValue : Nat → List Char → Option (Json × List Char)
  | 0, _ => none
  | fuel + 1, cs => match skipBlanks cs with
    | 'n' :: 'u' :: 'l' :: 'l' :: cs => some (.null, cs)
    | 't' :: 'r' :: 'u' :: 'e' :: cs => some (.bool true, cs)
    | 'f' :: 'a' :: 'l' :: 's' :: 'e' :: cs => some (.bool false, cs)
    | '"' :: cs => do
      let (s, rest) ← readString cs
      return (s.elim .unrepresentable .string, rest)
    | '[' :: cs => match skipBlanks cs with
      | ']' :: rest => some (.array [], rest)
      | cs => do
        let (items, rest) ← readItems fuel cs
        return (.array items, rest)
    | '{' :: cs => match skipBlanks cs with
      | '}' :: rest => some (.object [], rest)
      | cs => do
        let (fields, rest) ← readFields fuel cs
        return (ofFields fields, rest)
    | cs => do
      let (n, rest) ← readNumeral cs
      return (n.number?.elim .unrepresentable .number, rest)

/-- The items of an array up to its end. -/
def readItems : Nat → List Char → Option (List Json × List Char)
  | 0, _ => none
  | fuel + 1, cs => do
    let (j, cs) ← readValue fuel cs
    match skipBlanks cs with
    | ']' :: rest => return ([j], rest)
    | ',' :: cs =>
      let (js, rest) ← readItems fuel cs
      return (j :: js, rest)
    | _ => none

/-- The fields of an object up to its end. -/
def readFields : Nat → List Char → Option (List (Option String × Json) × List Char)
  | 0, _ => none
  | fuel + 1, cs => match skipBlanks cs with
    | '"' :: cs => do
      let (name, cs) ← readString cs
      match skipBlanks cs with
      | ':' :: cs =>
        let (j, cs) ← readValue fuel cs
        match skipBlanks cs with
        | '}' :: rest => return ([(name, j)], rest)
        | ',' :: cs =>
          let (fs, rest) ← readFields fuel cs
          return ((name, j) :: fs, rest)
        | _ => none
      | _ => none
    | _ => none

end

/-- The document that a whole text is. Every second step takes a character, so twice the length
is enough. -/
def parse (text : String) : Option Json := do
  let cs := text.toList
  let (j, rest) ← readValue (2 * cs.length + 2) cs
  if (skipBlanks rest).isEmpty then some j else none

end Json

end Provision
