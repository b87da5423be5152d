import Provision.Json.Reader
import Provision.Toml
import Provision.Toml.Scalar

/-!
# Reading TOML

`Toml.parse` reads a whole text in TOML, version 1.1, as the JSON document of the same shape.
Arrays and inline tables may be nested up to a limit.
-/

namespace Provision

namespace Toml

/-! ## Blanks and comments -/

/-- Whether a character may stand in comments and strings as it is. -/
def isPlain (c : Char) : Bool := c = '\t' || (0x20 ≤ c.toNat && c.toNat ≠ 0x7f)

/-- The text after spaces and tabs. -/
def skipBlanks (cs : List Char) : List Char := cs.dropWhile fun c => c = ' ' || c = '\t'

/-- The text after blanks, line breaks and comments; nothing if a comment holds a control
character. -/
def skipLines (inComment : Bool) : List Char → Option (List Char)
  | [] => some []
  | '\n' :: cs => skipLines false cs
  | '\r' :: '\n' :: cs => skipLines false cs
  | c :: cs =>
    if inComment then if isPlain c then skipLines true cs else none
    else if c = ' ' ∨ c = '\t' then skipLines false cs
    else if c = '#' then skipLines true cs
    else some (c :: cs)

/-- The text after the rest of a line, which holds at most a comment, and after empty lines. -/
def skipToLine (cs : List Char) : Option (List Char) :=
  match skipBlanks cs with
  | [] => some []
  | c :: cs =>
    if c = '\n' ∨ c = '\r' ∨ c = '#' then skipLines false (c :: cs) else none

/-! ## Strings -/

/-- The character after a backslash that is written with one letter. -/
def unescape? : Char → Option Char
  | '"' => some '"'
  | '\\' => some '\\'
  | 'b' => some '\x08'
  | 'e' => some '\x1b'
  | 'f' => some '\x0c'
  | 'n' => some '\n'
  | 'r' => some '\r'
  | 't' => some '\t'
  | _ => none

/-- The character of hexadecimal digits. -/
def codePoint? (ds : List Char) : Option Char := do
  let n ← Json.hexNumber? ds
  guard (n < 0xd800 ∨ (0xe000 ≤ n ∧ n < 0x110000))
  return .ofNat n

/-- A string up to its closing quote, with escapes, and the text after it. -/
def readBasic : List Char → Option (List Char × List Char)
  | [] => none
  | '"' :: cs => some ([], cs)
  | '\\' :: 'x' :: a :: b :: cs => escaped (codePoint? [a, b]) (readBasic cs)
  | '\\' :: 'u' :: a :: b :: c :: d :: cs => escaped (codePoint? [a, b, c, d]) (readBasic cs)
  | '\\' :: 'U' :: a :: b :: c :: d :: e :: f :: g :: h :: cs =>
    escaped (codePoint? [a, b, c, d, e, f, g, h]) (readBasic cs)
  | '\\' :: c :: cs => escaped (unescape? c) (readBasic cs)
  | c :: cs => escaped (if isPlain c ∧ c ≠ '\\' then some c else none) (readBasic cs)
where
  /-- One more character before those of the rest. -/
  escaped (c? : Option Char) (rest? : Option (List Char × List Char)) :
      Option (List Char × List Char) := do
    let c ← c?
    let (cs, rest) ← rest?
    return (c :: cs, rest)

/-- A string up to its closing apostrophe, and the text after it. -/
def readLiteral : List Char → Option (List Char × List Char)
  | [] => none
  | '\'' :: cs => some ([], cs)
  | c :: cs => readBasic.escaped (if isPlain c then some c else none) (readLiteral cs)

/-- Whether a line ends here, blanks aside. -/
def endsLine (cs : List Char) : Bool :=
  match skipBlanks cs with
  | '\n' :: _ | '\r' :: '\n' :: _ => true
  | _ => false

/-- A string over several lines up to its closing quotes, with escapes, and the text after it. After
a backslash at the end of a line the blanks up to the next character do not count: then `skip` is
set. Up to two quotes stand for themselves, also right before the closing ones. -/
def readLongBasic (skip : Bool) : List Char → Option (List Char × List Char)
  | [] => none
  | '"' :: '"' :: '"' :: '"' :: '"' :: cs => some (['"', '"'], cs)
  | '"' :: '"' :: '"' :: '"' :: cs => some (['"'], cs)
  | '"' :: '"' :: '"' :: cs => some ([], cs)
  | '\\' :: 'x' :: a :: b :: cs =>
    readBasic.escaped (codePoint? [a, b]) (readLongBasic false cs)
  | '\\' :: 'u' :: a :: b :: c :: d :: cs =>
    readBasic.escaped (codePoint? [a, b, c, d]) (readLongBasic false cs)
  | '\\' :: 'U' :: a :: b :: c :: d :: e :: f :: g :: h :: cs =>
    readBasic.escaped (codePoint? [a, b, c, d, e, f, g, h]) (readLongBasic false cs)
  | '\\' :: c :: cs =>
    if endsLine (c :: cs) then readLongBasic true (c :: cs)
    else readBasic.escaped (unescape? c) (readLongBasic false cs)
  | '\r' :: '\n' :: cs =>
    if skip then readLongBasic true cs
    else readBasic.escaped (some '\r') (readBasic.escaped (some '\n') (readLongBasic false cs))
  | c :: cs =>
    if skip ∧ (c = ' ' ∨ c = '\t' ∨ c = '\n') then readLongBasic true cs
    else
      let c? := if (isPlain c ∧ c ≠ '\\') ∨ c = '\n' then some c else none
      readBasic.escaped c? (readLongBasic false cs)

/-- A string over several lines up to its closing apostrophes, and the text after it. -/
def readLongLiteral : List Char → Option (List Char × List Char)
  | [] => none
  | '\'' :: '\'' :: '\'' :: '\'' :: '\'' :: cs => some (['\'', '\''], cs)
  | '\'' :: '\'' :: '\'' :: '\'' :: cs => some (['\''], cs)
  | '\'' :: '\'' :: '\'' :: cs => some ([], cs)
  | '\r' :: '\n' :: cs =>
    readBasic.escaped (some '\r') (readBasic.escaped (some '\n') (readLongLiteral cs))
  | c :: cs =>
    readBasic.escaped (if isPlain c ∨ c = '\n' then some c else none) (readLongLiteral cs)

/-- The text after a line break at its start, if there is one. -/
def skipBreak : List Char → List Char
  | '\n' :: cs | '\r' :: '\n' :: cs => cs
  | cs => cs

/-! ## Keys -/

/-- Whether a character may stand in a key without quotes. -/
def isBare (c : Char) : Bool := c.isAlphanum || c = '_' || c = '-'

/-- One key and the text after it. -/
def readKey : List Char → Option (String × List Char)
  | '"' :: cs => do
    let (key, rest) ← readBasic cs
    return (String.ofList key, rest)
  | '\'' :: cs => do
    let (key, rest) ← readLiteral cs
    return (String.ofList key, rest)
  | cs => do
    guard (!(cs.takeWhile isBare).isEmpty)
    return (String.ofList (cs.takeWhile isBare), cs.dropWhile isBare)

/-- At most `fuel` keys with dots between them: those above, the last one, and the text after it. -/
def readKeys : Nat → List Char → Option (List String × String × List Char)
  | 0, _ => none
  | fuel + 1, cs => do
    let (key, cs) ← readKey (skipBlanks cs)
    match skipBlanks cs with
    | '.' :: cs =>
      let (above, last, cs) ← readKeys fuel cs
      return (key :: above, last, cs)
    | cs => return ([], key, cs)

/-! ## Values -/

/-- The deepest nesting of arrays and inline tables that is read. -/
def depthLimit : Nat := 80

/-- Whether a character may stand in a scalar without quotes. -/
def isScalarChar (c : Char) : Bool := c.isAlphanum || ['+', '-', '_', '.', ':'].contains c

/-- A scalar without quotes, and the text after it. One blank may stand between a date and a
time. -/
def readScalar (cs : List Char) : Option (Json × List Char) :=
  let token := cs.takeWhile isScalarChar
  let rest := cs.dropWhile isScalarChar
  match readDate token, rest with
  | some (_, []), ' ' :: c :: rest =>
    if c.isDigit then do
      let time := (c :: rest).takeWhile isScalarChar
      return (← scalar? (token ++ ' ' :: time), (c :: rest).dropWhile isScalarChar)
    else do return (← scalar? token, ' ' :: c :: rest)
  | _, rest => do return (← scalar? token, rest)

mutual

/-- A value inside `depth` arrays and inline tables, and the text after it. -/
def readValue : Nat → Nat → List Char → Option (Json × List Char)
  | 0, _, _ => none
  | fuel + 1, depth, cs => match cs with
    | '"' :: '"' :: '"' :: cs => do
      let (s, rest) ← readLongBasic false (skipBreak cs)
      return (.string (String.ofList s), rest)
    | '"' :: cs => do
      let (s, rest) ← readBasic cs
      return (.string (String.ofList s), rest)
    | '\'' :: '\'' :: '\'' :: cs => do
      let (s, rest) ← readLongLiteral (skipBreak cs)
      return (.string (String.ofList s), rest)
    | '\'' :: cs => do
      let (s, rest) ← readLiteral cs
      return (.string (String.ofList s), rest)
    | '[' :: cs => do
      guard (depth < depthLimit)
      let (items, rest) ← readItems fuel (depth + 1) cs
      return (.array items, rest)
    | '{' :: cs => do
      guard (depth < depthLimit)
      let (fields, rest) ← readFields fuel (depth + 1) [] cs
      return (.object (fieldsToJson fields), rest)
    | cs => readScalar cs

/-- The items of an array up to its end. A comma may follow the last one. -/
def readItems : Nat → Nat → List Char → Option (List Json × List Char)
  | 0, _, _ => none
  | fuel + 1, depth, cs => do
    match ← skipLines false cs with
    | ']' :: rest => return ([], rest)
    | cs =>
      let (j, cs) ← readValue fuel depth cs
      match ← skipLines false cs with
      | ']' :: rest => return ([j], rest)
      | ',' :: cs =>
        let (js, rest) ← readItems fuel depth cs
        return (j :: js, rest)
      | _ => none

/-- The fields of an inline table up to its end, added to those before them. A comma may follow the
last one. -/
def readFields : Nat → Nat → Fields Node → List Char → Option (Fields Node × List Char)
  | 0, _, _, _ => none
  | fuel + 1, depth, fields, cs => do
    match ← skipLines false cs with
    | '}' :: rest => return (fields, rest)
    | cs =>
      let (above, key, cs) ← readKeys cs.length cs
      match skipBlanks cs with
      | '=' :: cs =>
        let (j, cs) ← readValue fuel depth (skipBlanks cs)
        let fields ← assign above key j .declared fields
        match ← skipLines false cs with
        | '}' :: rest => return (fields, rest)
        | ',' :: cs => readFields fuel depth fields cs
        | _ => none
      | _ => none

end

/-! ## Documents -/

/-- A header without its brackets in front, and the text after it. -/
def readHeader (inArray : Bool) (cs : List Char) : Option (Statement × List Char) := do
  let (above, key, cs) ← readKeys cs.length cs
  match inArray, skipBlanks cs with
  | false, ']' :: rest => return (.table above key, rest)
  | true, ']' :: ']' :: rest => return (.element above key, rest)
  | _, _ => none

/-- A statement and the text after it. -/
def readStatement : List Char → Option (Statement × List Char)
  | '[' :: '[' :: cs => readHeader true cs
  | '[' :: cs => readHeader false cs
  | cs => do
    let (above, key, cs) ← readKeys cs.length cs
    match skipBlanks cs with
    | '=' :: cs =>
      let (j, rest) ← readValue (2 * cs.length + 2) 0 (skipBlanks cs)
      return (.assign above key j, rest)
    | _ => none

/-- At most `fuel` statements, each on lines of its own, up to the end of the text. -/
def readStatements : Nat → List Char → Option (List Statement)
  | 0, _ => none
  | fuel + 1, cs => do
    match ← skipLines false cs with
    | [] => return []
    | cs =>
      let (s, cs) ← readStatement cs
      return s :: (← readStatements fuel (← skipToLine cs))

/-- The text after a byte order mark, if it starts with one. -/
def skipMark : List Char → List Char
  | '\ufeff' :: cs => cs
  | cs => cs

/-- The document that a whole text is. -/
def parse (text : String) : Option Json := do
  let cs := skipMark text.toList
  document? (← readStatements (cs.length + 1) cs)

end Toml

end Provision
