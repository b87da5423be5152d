import Provision.Json

/-!
# Printing JSON

Documents as text, either on one line (`Json.compact`) or with one item to a line and two blanks
for each level (`Json.pretty`). Of the characters only the quote, the backslash and those below
U+0020 are escaped.
-/

namespace Provision

namespace Json

/-- The hexadecimal digit of a number below 16. -/
private def hexDigit (n : Nat) : Char := Nat.digitChar n

/-- A character inside a string. -/
def escape (c : Char) : List Char :=
  match c with
  | '"' => ['\\', '"']
  | '\\' => ['\\', '\\']
  | '\n' => ['\\', 'n']
  | '\t' => ['\\', 't']
  | '\r' => ['\\', 'r']
  | '\x08' => ['\\', 'b']
  | '\x0c' => ['\\', 'f']
  | c =>
    if c.toNat < 0x20 then ['\\', 'u', '0', '0', hexDigit (c.toNat / 16), hexDigit (c.toNat % 16)]
    else [c]

/-- A text between quotes. -/
def quote (s : String) : String := String.ofList ('"' :: s.toList.flatMap escape ++ ['"'])

/-- A scalar, or an empty container. -/
def leaf : Json → String
  | .bool true => "true"
  | .bool false => "false"
  | .number n => n.text
  | .string s => quote s
  | .array _ => "[]"
  | .object _ => "\x7b\x7d"
  | .null | .unrepresentable => "null"

mutual

/-- The document on one line. -/
def compact : Json → String
  | .array (j :: js) => "[" ++ j.compact ++ compactItems js ++ "]"
  | .object ((k, j) :: fs) => "\x7b" ++ quote k ++ ":" ++ j.compact ++ compactFields fs ++ "\x7d"
  | j => j.leaf

/-- The items after the first one. -/
def compactItems : List Json → String
  | [] => ""
  | j :: js => "," ++ j.compact ++ compactItems js

/-- The fields after the first one. -/
def compactFields : List (String × Json) → String
  | [] => ""
  | (k, j) :: fs => "," ++ quote k ++ ":" ++ j.compact ++ compactFields fs

end

/-- A line break and the blanks of the given level. -/
def newline (level : Nat) : String := String.ofList ('\n' :: List.replicate (2 * level) ' ')

mutual

/-- The document over several lines, of which all but the first stand at `level` or deeper. -/
def prettyAt (level : Nat) : Json → String
  | .array (j :: js) =>
    "[" ++ newline (level + 1) ++ j.prettyAt (level + 1) ++ prettyItems (level + 1) js
      ++ newline level ++ "]"
  | .object ((k, j) :: fs) =>
    "\x7b" ++ newline (level + 1) ++ quote k ++ ": " ++ j.prettyAt (level + 1)
      ++ prettyFields (level + 1) fs ++ newline level ++ "\x7d"
  | j => j.leaf

/-- The items after the first one. -/
def prettyItems (level : Nat) : List Json → String
  | [] => ""
  | j :: js => "," ++ newline level ++ j.prettyAt level ++ prettyItems level js

/-- The fields after the first one. -/
def prettyFields (level : Nat) : List (String × Json) → String
  | [] => ""
  | (k, j) :: fs =>
    "," ++ newline level ++ quote k ++ ": " ++ j.prettyAt level ++ prettyFields level fs

end

/-- The document over several lines. -/
def pretty (j : Json) : String := j.prettyAt 0

end Json

end Provision
