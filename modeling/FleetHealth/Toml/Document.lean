import FleetHealth.Toml.Number
import FleetHealth.Toml.Text
import FleetHealth.Toml.Tree
/-!
# Reading a TOML document

`parse` reads the statements of a document, version 1.0 of the format, and builds the table that they
describe. Values may be nested less than 80 deep, and a name has less than 80 parts.
-/

namespace FleetHealth.Toml

/-- How deep arrays and inline tables may be nested, and how many parts a name may have. -/
def maxDepth : Nat := 79

/-! ## Names -/

/-- Whether a character may stand in a name without quotes. -/
def isBareChar (c : Char) : Bool :=
  c.isAlphanum || c = '-' || c = '_'

/-- Reads one part of a name. -/
def readNamePart : List Char → Option (String × List Char)
  | '"' :: rest => readBasic [] rest
  | '\x27' :: rest => readLiteral [] rest
  | cs =>
    match cs.takeWhile isBareChar with
    | [] => none
    | run => some (String.ofList run, cs.dropWhile isBareChar)

/-- Reads at most `limit` parts of a name, with the dots between them and the blanks around them. -/
def readName : Nat → List Char → Option (List String × List Char)
  | 0, _ => none
  | limit + 1, cs => do
    let (part, rest) ← readNamePart (skipSpaces cs)
    match skipSpaces rest with
    | '.' :: rest =>
      let (parts, rest) ← readName limit rest
      some (part :: parts, rest)
    | rest => some ([part], rest)

/-! ## Line ends -/

/-- The text after a comment and the end of its line, from inside the comment. -/
def skipComment : List Char → Option (List Char)
  | [] => some []
  | '\n' :: rest => some rest
  | '\r' :: '\n' :: rest => some rest
  | c :: rest => if isPlain c then skipComment rest else none

/-- The text after the rest of a line that holds nothing but blanks and a comment. -/
def finishLine (cs : List Char) : Option (List Char) :=
  match skipSpaces cs with
  | [] => some []
  | '\n' :: rest => some rest
  | '\r' :: '\n' :: rest => some rest
  | '#' :: rest => skipComment rest
  | _ => none

/-- The text after blanks, line ends and comments. `inComment` tells where the text starts. -/
def skipFiller (inComment : Bool) : List Char → Option (List Char)
  | [] => some []
  | '\n' :: rest => skipFiller false rest
  | '\r' :: '\n' :: rest => skipFiller false rest
  | c :: rest =>
    if inComment then if isPlain c then skipFiller true rest else none
    else if isSpace c then skipFiller false rest
    else if c = '#' then skipFiller true rest
    else some (c :: rest)

/-! ## Values -/

/-- Reads a value that needs no brackets. -/
def readScalar (cs : List Char) : Option (Value × List Char) :=
  match cs with
  | 't' :: 'r' :: 'u' :: 'e' :: rest => some (.bool true, rest)
  | 'f' :: 'a' :: 'l' :: 's' :: 'e' :: rest => some (.bool false, rest)
  | _ =>
    ((readText cs).map fun r => (Value.str r.1, r.2)).or <|
      ((readDatetime cs).map fun r => (Value.datetime r.1, r.2)).or <|
        ((readFloat cs).map fun r => (Value.float r.1, r.2)).or <|
          (readInteger cs).map fun r => (Value.int r.1, r.2)

mutual

/-- Reads a value that is nested at most `depth` deep. Every call takes one unit of `fuel`, of which a
text needs no more than it has characters. -/
def readValue (fuel depth : Nat) (cs : List Char) : Option (Value × List Char) :=
  match fuel with
  | 0 => none
  | fuel + 1 =>
    match cs with
    | '[' :: rest =>
      match depth with
      | 0 => none
      | depth + 1 => do
        let (items, rest) ← readItems fuel depth [] (← skipFiller false rest)
        some (.arr items, rest)
    | '\x7b' :: rest =>
      match depth with
      | 0 => none
      | depth + 1 => do
        let (assignments, rest) ←
          match skipSpaces rest with
          | '\x7d' :: rest => some ([], rest)
          | rest => readAssignments fuel depth [] rest
        some (← inlineTable? assignments, rest)
    | _ => readScalar cs

/-- Reads the rest of an array, from the start of an item or of the closing bracket. -/
def readItems (fuel depth : Nat) (acc : List Value) (cs : List Char) :
    Option (List Value × List Char) :=
  match fuel with
  | 0 => none
  | fuel + 1 =>
    match cs with
    | ']' :: rest => some (acc.reverse, rest)
    | _ => do
      let (v, rest) ← readValue fuel depth cs
      match ← skipFiller false rest with
      | ',' :: rest => readItems fuel depth (v :: acc) (← skipFiller false rest)
      | ']' :: rest => some ((v :: acc).reverse, rest)
      | _ => none

/-- Reads the rest of an inline table, from the start of a name. -/
def readAssignments (fuel depth : Nat) (acc : List (List String × Value)) (cs : List Char) :
    Option (List (List String × Value) × List Char) :=
  match fuel with
  | 0 => none
  | fuel + 1 => do
    let (path, rest) ← readName maxDepth cs
    let rest ← expect '=' rest
    let (v, rest) ← readValue fuel depth (skipSpaces rest)
    match skipSpaces rest with
    | ',' :: rest => readAssignments fuel depth ((path, v) :: acc) rest
    | '\x7d' :: rest => some (((path, v) :: acc).reverse, rest)
    | _ => none

end

/-! ## Statements -/

/-- Reads a statement and the rest of its line. -/
def readStatement (cs : List Char) : Option (Statement × List Char) :=
  match cs with
  | '[' :: '[' :: rest => do
    let (path, rest) ← readName maxDepth rest
    let rest ← finishLine (← expect ']' (← expect ']' rest))
    some (.arrayHeader path, rest)
  | '[' :: rest => do
    let (path, rest) ← readName maxDepth rest
    let rest ← finishLine (← expect ']' rest)
    some (.header path, rest)
  | _ => do
    let (path, rest) ← readName maxDepth cs
    let rest ← expect '=' rest
    let (v, rest) ← readValue cs.length maxDepth (skipSpaces rest)
    some (.assign path v, ← finishLine rest)

/-- Reads statements up to the end of the text, each of which takes one unit of `fuel`. -/
def readStatements (fuel : Nat) (acc : List Statement) (cs : List Char) : Option (List Statement) := do
  match ← skipFiller false cs with
  | [] => some acc.reverse
  | rest =>
    match fuel with
    | 0 => none
    | fuel + 1 =>
      let (s, rest) ← readStatement rest
      readStatements fuel (s :: acc) rest

/-- The statements of a text, which may start with a byte order mark. -/
def statements? (s : String) : Option (List Statement) :=
  let cs := match s.toList with
    | '\uFEFF' :: rest => rest
    | cs => cs
  readStatements cs.length [] cs

/-- The table that a text denotes, if the text is TOML. -/
def parse (s : String) : Option Value :=
  (statements? s).bind ofStatements?

end FleetHealth.Toml
