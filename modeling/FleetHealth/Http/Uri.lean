import FleetHealth.Text.Decimal
import FleetHealth.Text.Split
/-!
# URIs

A URI is a path, an authority alone, or a scheme with an authority and a path. A fragment is no part of
it, and what follows its sign is never looked at. The checks go from left to right, so the first fault
of a text is the one that is reported.
-/

namespace FleetHealth.Http

/-- Why a text is not a URI. -/
inductive UriFault where
  | tooLong
  | empty
  | invalidCharacter
  | invalidAuthority
  | invalidFormat
  | schemeTooLong
  deriving DecidableEq, Repr, Inhabited

/-- The wording of a fault. -/
def UriFault.message : UriFault → String
  | .tooLong => "uri too long"
  | .empty => "empty string"
  | .invalidCharacter => "invalid uri character"
  | .invalidAuthority => "invalid authority"
  | .invalidFormat => "invalid format"
  | .schemeTooLong => "scheme too long"

/-- A URI. -/
structure Uri where
  /-- The scheme; the names of the two schemes of HTTP are in lower case. -/
  scheme : Option (List Char)
  /-- The authority as written, empty if there is none. -/
  authority : List Char
  /-- The path and the query as written, without the fragment. -/
  path : List Char
  deriving DecidableEq, Repr, Inhabited

/-! ## The authority -/

/-- Whether a character ends the authority. -/
def endsAuthority (c : Char) : Bool :=
  c == '/' || c == '?' || c == '#'

/-- Whether a character may stand in an authority wherever it likes. -/
def isAuthorityChar (c : Char) : Bool :=
  c.isAlphanum || "!$&'()*+,-.:;=@[]_~".toList.contains c

/-- What the characters of an authority so far leave open. -/
structure AuthorityScan where
  /-- The colons since the last `@` or `]`. -/
  colons : Nat := 0
  opened : Bool := false
  closed : Bool := false
  /-- Whether there was a percent sign since the last `@` or `]`. -/
  percent : Bool := false
  /-- Whether the last character was `@`. -/
  atEnd : Bool := false
  deriving DecidableEq, Repr, Inhabited

namespace AuthorityScan

/-- The most colons in a row of characters without `@` and `]`. -/
def mostColons : Nat := 8

/-- One more character of the authority. -/
def step (s : AuthorityScan) (c : Char) : Except UriFault AuthorityScan :=
  let s := { s with atEnd := c == '@' }
  if c = ':' then
    if mostColons ≤ s.colons then .error .invalidAuthority else .ok { s with colons := s.colons + 1 }
  else if c = '[' then
    if s.percent || s.opened then .error .invalidAuthority else .ok { s with opened := true }
  else if c = ']' then
    if !s.opened || s.closed then .error .invalidAuthority
    else .ok { s with closed := true, colons := 0, percent := false }
  else if c = '@' then .ok { s with colons := 0, percent := false }
  else if c = '%' then .ok { s with percent := true }
  else if isAuthorityChar c then .ok s
  else .error .invalidCharacter

/-- Whether the authority may end here. -/
def mayEnd (s : AuthorityScan) : Bool :=
  s.opened == s.closed && s.colons ≤ 1 && !s.atEnd && !s.percent

end AuthorityScan

/-- Splits off the authority at the start of a text, which must not be empty though the authority may
be. -/
def splitAuthority (cs : List Char) : Except UriFault (List Char × List Char) := do
  if cs.isEmpty then .error .empty
  else
    let authority := cs.takeWhile fun c => !endsAuthority c
    let scan ← authority.foldlM AuthorityScan.step {}
    if scan.mayEnd then .ok (authority, cs.dropWhile fun c => !endsAuthority c)
    else .error .invalidAuthority

/-! ## The path and the query -/

/-- Whether a character may stand in a path. -/
def isPathChar (c : Char) : Bool :=
  c.isAlphanum || "!\"$%&'()*+,-./:;=@[\\]^_\x7b|\x7d~".toList.contains c || '\x7f' < c

/-- Whether a character may stand in a query. -/
def isQueryChar (c : Char) : Bool :=
  c == '!' || ('$' ≤ c && c ≤ ';') || c == '=' || ('?' ≤ c && c ≤ '~') || '\x7f' < c

/-- The query at the start of a text, up to the fragment. -/
def readQuery : List Char → Except UriFault (List Char)
  | [] => .ok []
  | c :: rest =>
    if c = '#' then .ok []
    else if isQueryChar c then (readQuery rest).map (c :: ·)
    else .error .invalidCharacter

/-- The path and the query at the start of a text, up to the fragment. -/
def readPath : List Char → Except UriFault (List Char)
  | [] => .ok []
  | c :: rest =>
    if c = '#' then .ok []
    else if c = '?' then (readQuery rest).map (c :: ·)
    else if isPathChar c then (readPath rest).map (c :: ·)
    else .error .invalidCharacter

/-! ## The scheme -/

/-- Whether a character may stand in a scheme. -/
def isSchemeChar (c : Char) : Bool :=
  c.isAlphanum || c == '+' || c == '-' || c == '.' || c == '~'

/-- What stands between a scheme and an authority. -/
def schemeEnd : List Char := [':', '/', '/']

/-- The most characters of a scheme. -/
def mostSchemeChars : Nat := 64

/-- Splits off the scheme at the start of a text, if it has one, and what stands behind it. -/
def splitScheme (cs : List Char) : Except UriFault (Option (List Char) × List Char) :=
  let scheme := cs.takeWhile isSchemeChar
  let rest := cs.dropWhile isSchemeChar
  if schemeEnd.isPrefixOf rest && cs != schemeEnd then
    let lower := scheme.map Char.toLower
    if lower = "http".toList ∨ lower = "https".toList then .ok (some lower, rest.drop 3)
    else if mostSchemeChars < scheme.length then .error .schemeTooLong
    else .ok (some scheme, rest.drop 3)
  else .ok (none, cs)

/-! ## Reading a URI -/

namespace Uri

/-- The most bytes of a URI. -/
def mostBytes : Nat := 65534

/-- The URI that consists of an authority alone. -/
def ofAuthority (cs : List Char) (rest : UriFault) : Except UriFault Uri := do
  let (authority, after) ← splitAuthority cs
  if after.isEmpty then .ok ⟨none, authority, []⟩ else .error rest

/-- The URI that a text of several characters without a leading slash spells. -/
def ofChars (cs : List Char) : Except UriFault Uri := do
  let (scheme, rest) ← splitScheme cs
  match scheme with
  | none => ofAuthority rest .invalidFormat
  | some scheme =>
    let (authority, after) ← splitAuthority rest
    if authority.isEmpty then .error .invalidFormat
    else return ⟨some scheme, authority, ← readPath after⟩

/-- The URI that a text spells. -/
def parse (text : String) : Except UriFault Uri :=
  if mostBytes < text.utf8ByteSize then .error .tooLong
  else
    match text.toList with
    | [] => .error .empty
    | ['*'] => .ok ⟨none, [], ['*']⟩
    | '/' :: rest => (readPath ('/' :: rest)).map fun path => ⟨none, [], path⟩
    | [c] => ofAuthority [c] .invalidCharacter
    | cs => ofChars cs

/-- The path and the query to ask a server for. -/
def target (u : Uri) : List Char :=
  if u.path.isEmpty then ['/'] else u.path

/-- The TCP port that the authority names: what follows its last colon, if that is such a number, perhaps
after a plus sign. -/
def port? (u : Uri) : Option UInt16 :=
  if u.authority.contains ':' then
    (Text.unsigned? 65535 (Text.afterLast ':' u.authority)).map UInt16.ofNat
  else none

/-- The host of the authority, with the brackets that it may stand in. -/
def host (u : Uri) : List Char :=
  match Text.afterLast '@' u.authority with
  | '[' :: rest => '[' :: (rest.takeWhile (· != ']') ++ [']'])
  | hostPort => hostPort.takeWhile (· != ':')

end Uri

/-- A host or address without the brackets around it. -/
def unbracket (cs : List Char) : List Char :=
  ((cs.dropWhile (· == '[')).reverse.dropWhile (· == ']')).reverse

end FleetHealth.Http
