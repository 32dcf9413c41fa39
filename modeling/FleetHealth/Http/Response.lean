import FleetHealth.Http.Request
/-!
# The head of a response

The status of a response is read from the bytes that were received, each given as the character with its
number. Of two faults the one that comes first in the text is reported. The body is never looked at; its
announced length only has to make sense where the response has a body at all.
-/

namespace FleetHealth.Http

/-- Why there is no status. -/
inductive ResponseFault where
  | incomplete
  | invalidVersion
  | invalidStatus
  | invalidHeader
  | invalidLength
  | unexpectedTransferEncoding
  | tooLarge
  deriving DecidableEq, Repr, Inhabited

/-- The wording of a fault. -/
def ResponseFault.message : ResponseFault → String
  | .incomplete => "connection closed before message completed"
  | .invalidVersion => "invalid HTTP version parsed"
  | .invalidStatus => "invalid HTTP status-code parsed"
  | .invalidHeader => "invalid HTTP header parsed"
  | .invalidLength => "invalid content-length parsed"
  | .unexpectedTransferEncoding => "unexpected transfer-encoding parsed"
  | .tooLarge => "message head is too large"

/-- A header of a response. -/
structure Header where
  /-- The name in lower case. -/
  name : List Char
  /-- The value, without the blanks around it. -/
  value : List Char
  deriving DecidableEq, Repr, Inhabited

/-- The head of a response. -/
structure ResponseHead where
  /-- Whether the version is 1.0 rather than 1.1. -/
  isOld : Bool
  status : Nat
  headers : List Header
  deriving DecidableEq, Repr, Inhabited

/-- What is left of a text after a part of it was read, and that part. -/
abbrev Reading (α : Type) := Except ResponseFault (α × List Char)

/-! ## The status line -/

/-- Passes over the empty lines at the start of a text. -/
def skipEmptyLines : List Char → Except ResponseFault (List Char)
  | [] => .error .incomplete
  | '\n' :: rest => skipEmptyLines rest
  | ['\r'] => .error .incomplete
  | '\r' :: '\n' :: rest => skipEmptyLines rest
  | '\r' :: _ => .error .invalidHeader
  | cs => .ok cs

/-- The version, and whether it is the older one. -/
def readVersion (cs : List Char) : Reading Bool :=
  let version := "HTTP/1.".toList
  if version.isPrefixOf cs then
    match cs.drop version.length with
    | [] => .error .incomplete
    | '0' :: rest => .ok (true, rest)
    | '1' :: rest => .ok (false, rest)
    | _ => .error .invalidVersion
  else if cs.isPrefixOf version then .error .incomplete
  else .error .invalidVersion

/-- The blank behind the version. -/
def readBlank : List Char → Reading Unit
  | [] => .error .incomplete
  | ' ' :: rest => .ok ((), rest)
  | _ => .error .invalidVersion

/-- Some digits and the number that they spell, after a number `n`. -/
def readDigits (n : Nat) : Nat → List Char → Reading Nat
  | 0, cs => .ok (n, cs)
  | _ + 1, [] => .error .incomplete
  | count + 1, c :: rest =>
    if c.isDigit then readDigits (10 * n + (c.toNat - '0'.toNat)) count rest
    else .error .invalidStatus

/-- The end of a line, at a character other than a carriage return only if it is a line feed. -/
def readLineEnd (fault : ResponseFault) : List Char → Reading Unit
  | [] => .error .incomplete
  | '\n' :: rest => .ok ((), rest)
  | ['\r'] => .error .incomplete
  | '\r' :: '\n' :: rest => .ok ((), rest)
  | _ => .error fault

/-- The reason behind the status code, if there is one, and the end of the line. -/
def readReason : List Char → Reading Unit
  | ' ' :: rest => readLineEnd .invalidStatus (rest.dropWhile isValueChar)
  | cs => readLineEnd .invalidStatus cs

/-! ## Headers -/

/-- The value of a header without the blanks around it. -/
def trimBlanks (cs : List Char) : List Char :=
  let isBlank (c : Char) : Bool := c == ' ' || c == '\t'
  ((cs.dropWhile isBlank).reverse.dropWhile isBlank).reverse

/-- One header and the end of its line. -/
def readHeader (cs : List Char) : Reading Header :=
  let name := cs.takeWhile isTokenChar
  match cs.dropWhile isTokenChar with
  | [] => .error .incomplete
  | ':' :: rest =>
    (readLineEnd .invalidHeader (rest.dropWhile isValueChar)).map fun (_, left) =>
      (⟨name.map Char.toLower, trimBlanks (rest.takeWhile isValueChar)⟩, left)
  | _ => .error .invalidHeader

/-- The most headers of a response. -/
def mostHeaders : Nat := 100

/-- Up to `room` headers and the empty line after them. -/
def readHeaders (room : Nat) (cs : List Char) : Except ResponseFault (List Header × List Char) :=
  match cs with
  | [] => .error .incomplete
  | c :: _ =>
    if c = '\n' ∨ c = '\r' then (readLineEnd .invalidHeader cs).map fun (_, left) => ([], left)
    else if !isTokenChar c then .error .invalidHeader
    else
      match room with
      | 0 => .error .tooLarge
      | room + 1 => do
        let (header, rest) ← readHeader cs
        let (headers, rest) ← readHeaders room rest
        return (header :: headers, rest)

/-- One head. -/
def readHead (cs : List Char) : Except ResponseFault (ResponseHead × List Char) := do
  let cs ← skipEmptyLines cs
  let (isOld, cs) ← readVersion cs
  let ((), cs) ← readBlank cs
  let (status, cs) ← readDigits 0 3 cs
  let ((), cs) ← readReason cs
  let (headers, cs) ← readHeaders mostHeaders cs
  if status < 100 then .error .invalidStatus else return (⟨isOld, status, headers⟩, cs)

/-! ## The length of the body -/

namespace ResponseHead

/-- The values of the headers of a name. -/
def values (h : ResponseHead) (name : String) : List (List Char) :=
  (h.headers.filter (·.name == name.toList)).map (·.value)

/-- The announced length of the body: every part of every value must be the same number. -/
def length? (h : ResponseHead) : Option Nat :=
  let lengths := ((h.values "content-length").flatMap (Text.splitAt ',')).map fun part =>
    (Text.ofDigits? (trimBlanks part)).filter (· < 18446744073709551616)
  match lengths with
  | some n :: rest => if rest.all (· == some n) then some n else none
  | _ => none

/-- Whether a request of the method leads to a body, as far as the status tells. -/
def hasBody (h : ResponseHead) (method : List Char) : Bool :=
  h.status != 204 && h.status != 304 && method != "HEAD".toList
    && !(method == "CONNECT".toList && 200 ≤ h.status && h.status < 300)

/-- The greatest length that a body may have. -/
def greatestLength : Nat := 18446744073709551613

/-- What is wrong with the announced length of the body. -/
def lengthFault? (h : ResponseHead) (method : List Char) : Option ResponseFault :=
  if !h.hasBody method then none
  else if !(h.values "transfer-encoding").isEmpty then
    if h.isOld then some .unexpectedTransferEncoding else none
  else if (h.values "content-length").isEmpty then none
  else
    match h.length? with
    | some n => if n ≤ greatestLength then none else some .tooLarge
    | none => some .invalidLength

/-- Whether the head only says that the response is still to come. -/
def isInterim (h : ResponseHead) : Bool :=
  h.status < 200 && h.status != 101

end ResponseHead

/-- The status in a text of at most `fuel` heads. -/
def statusWithin (method : List Char) : Nat → List Char → Except ResponseFault Nat
  | 0, _ => .error .incomplete
  | fuel + 1, cs => do
    let (head, rest) ← readHead cs
    if head.isInterim then statusWithin method fuel rest
    else if head.status = 101 then return head.status
    else
      match head.lengthFault? method with
      | some fault => .error fault
      | none => return head.status

/-- The status of the response to a request of a method: that of the first head which is not interim. -/
def status (method cs : List Char) : Except ResponseFault Nat :=
  statusWithin method (cs.length + 1) cs

end FleetHealth.Http
