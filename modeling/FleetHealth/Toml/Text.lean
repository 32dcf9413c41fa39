import FleetHealth.Json.Token
/-!
# TOML texts

The four forms of a text: on one line or several, with escapes or without. Readers start behind the
opening quotes and return what follows the closing ones.
-/

namespace FleetHealth.Toml

/-- Whether a character may stand for itself in a text or a comment: anything but the control
characters, of which only the tab is allowed. -/
def isPlain (c : Char) : Bool :=
  c = '\t' || (0x20 ≤ c.toNat && c.toNat ≠ 0x7F)

/-- Whether a character is a space or a tab. -/
def isSpace (c : Char) : Bool :=
  c = ' ' || c = '\t'

/-- The text after its leading spaces and tabs. -/
def skipSpaces (cs : List Char) : List Char :=
  cs.dropWhile isSpace

/-- The character that a one-letter escape stands for. -/
def escaped? : Char → Option Char
  | 'b' => some '\x08'
  | 't' => some '\t'
  | 'n' => some '\n'
  | 'f' => some '\x0c'
  | 'r' => some '\r'
  | '"' => some '"'
  | '\\' => some '\\'
  | _ => none

/-- The value of a run of hexadecimal digits. -/
def hexRun? (cs : List Char) : Option Nat :=
  cs.foldlM (fun n c => (Json.hexValue? c).map (n * 16 + ·)) 0

/-- The character with a code point that is written in hexadecimal digits. -/
def codePoint? (cs : List Char) : Option Char := do
  let n ← hexRun? cs
  if n.isValidChar then some (Char.ofNat n) else none

/-- The text of characters that were collected last first. -/
def collected (acc : List Char) : String :=
  String.ofList acc.reverse

/-- Reads a text in double quotes on one line. -/
def readBasic (acc : List Char) : List Char → Option (String × List Char)
  | '"' :: rest => some (collected acc, rest)
  | '\\' :: 'u' :: a :: b :: c :: d :: rest =>
    match codePoint? [a, b, c, d] with
    | some x => readBasic (x :: acc) rest
    | none => none
  | '\\' :: 'U' :: a :: b :: c :: d :: e :: f :: g :: h :: rest =>
    match codePoint? [a, b, c, d, e, f, g, h] with
    | some x => readBasic (x :: acc) rest
    | none => none
  | '\\' :: e :: rest =>
    match escaped? e with
    | some x => readBasic (x :: acc) rest
    | none => none
  | c :: rest => if isPlain c then readBasic (c :: acc) rest else none
  | [] => none

/-- Reads a text in single quotes on one line. -/
def readLiteral (acc : List Char) : List Char → Option (String × List Char)
  | '\x27' :: rest => some (collected acc, rest)
  | c :: rest => if isPlain c then readLiteral (c :: acc) rest else none
  | [] => none

/-- Whether nothing but spaces and tabs stands before the end of the line. -/
def endsLine (cs : List Char) : Bool :=
  match skipSpaces cs with
  | '\n' :: _ => true
  | '\r' :: '\n' :: _ => true
  | _ => false

/-- The text after a line end, if it starts with one. -/
def dropLineEnd : List Char → List Char
  | '\n' :: rest => rest
  | '\r' :: '\n' :: rest => rest
  | cs => cs

/-- Reads a text in three double quotes. Up to two quotes may stand directly before the closing ones. A
backslash at the end of a line passes over all white space after it, which `skipping` tells. -/
def readBasicLines (skipping : Bool) (acc : List Char) : List Char → Option (String × List Char)
  | '"' :: '"' :: '"' :: '"' :: '"' :: rest => some (collected ('"' :: '"' :: acc), rest)
  | '"' :: '"' :: '"' :: '"' :: rest => some (collected ('"' :: acc), rest)
  | '"' :: '"' :: '"' :: rest => some (collected acc, rest)
  | '\\' :: 'u' :: a :: b :: c :: d :: rest =>
    match codePoint? [a, b, c, d] with
    | some x => readBasicLines false (x :: acc) rest
    | none => none
  | '\\' :: 'U' :: a :: b :: c :: d :: e :: f :: g :: h :: rest =>
    match codePoint? [a, b, c, d, e, f, g, h] with
    | some x => readBasicLines false (x :: acc) rest
    | none => none
  | '\\' :: '\r' :: '\n' :: rest => readBasicLines true acc rest
  | '\\' :: e :: rest =>
    match escaped? e with
    | some x => readBasicLines false (x :: acc) rest
    | none => if endsLine (e :: rest) then readBasicLines true acc rest else none
  | '\r' :: '\n' :: rest =>
    if skipping then readBasicLines true acc rest else readBasicLines false ('\n' :: acc) rest
  | c :: rest =>
    if skipping && (isSpace c || c = '\n') then readBasicLines true acc rest
    else if isPlain c || c = '\n' then readBasicLines false (c :: acc) rest
    else none
  | [] => none

/-- Reads a text in three single quotes. Up to two quotes may stand directly before the closing
ones. -/
def readLiteralLines (acc : List Char) : List Char → Option (String × List Char)
  | '\x27' :: '\x27' :: '\x27' :: '\x27' :: '\x27' :: rest =>
    some (collected ('\x27' :: '\x27' :: acc), rest)
  | '\x27' :: '\x27' :: '\x27' :: '\x27' :: rest => some (collected ('\x27' :: acc), rest)
  | '\x27' :: '\x27' :: '\x27' :: rest => some (collected acc, rest)
  | '\r' :: '\n' :: rest => readLiteralLines ('\n' :: acc) rest
  | c :: rest => if isPlain c || c = '\n' then readLiteralLines (c :: acc) rest else none
  | [] => none

/-- Reads a text in any of its forms. -/
def readText : List Char → Option (String × List Char)
  | '"' :: '"' :: '"' :: rest => readBasicLines false [] (dropLineEnd rest)
  | '"' :: rest => readBasic [] rest
  | '\x27' :: '\x27' :: '\x27' :: rest => readLiteralLines [] (dropLineEnd rest)
  | '\x27' :: rest => readLiteral [] rest
  | _ => none

end FleetHealth.Toml
