import FleetHealth.Toml.Text
/-!
# Writing TOML texts

A text is written in the plainest form that it fits: without escapes on one line, then without escapes
on several, and with escapes only when nothing else will do.
-/

namespace FleetHealth.Toml

/-- The forms of a text. -/
inductive TextForm where
  | basic
  | literal
  | basicLines
  | literalLines
  deriving DecidableEq, Repr

/-- Whether a character has to be escaped wherever it stands. Tabs and line feeds do not count. -/
def isControl (c : Char) : Bool :=
  (c.toNat < 0x20 && c ≠ '\t' && c ≠ '\n') || c.toNat = 0x7F

/-- The length of the longest run of a character, where `current` of them were just passed. -/
def longestRun (quote : Char) (current : Nat) : List Char → Nat
  | [] => current
  | c :: rest =>
    if c = quote then longestRun quote (current + 1) rest
    else max current (longestRun quote 0 rest)

/-- The form in which a text is written. -/
def textForm (cs : List Char) : TextForm :=
  let control := cs.any isControl
  let newline := cs.contains '\n'
  let backslash := cs.contains '\\'
  let double := longestRun '"' 0 cs
  let single := longestRun '\x27' 0 cs
  if !control && !backslash && !newline && double = 0 then .basic
  else if !control && !newline && single = 0 then .literal
  else if !control && !backslash && double ≤ 2 then .basicLines
  else if !control && single ≤ 2 then .literalLines
  else if newline then .basicLines
  else .basic

/-- The capital hexadecimal digit for a value below sixteen. -/
def capitalHexDigit (n : Nat) : Char :=
  if n < 10 then Char.ofNat (n + 48) else Char.ofNat (n + 55)

/-- The spelling of a character in a form with escapes, if it cannot stand for itself there. -/
def escape? (lines : Bool) (c : Char) : Option (List Char) :=
  if c = '\x08' then some ['\\', 'b']
  else if c = '\t' then some ['\\', 't']
  else if c = '\n' then if lines then none else some ['\\', 'n']
  else if c = '\x0c' then some ['\\', 'f']
  else if c = '\r' then some ['\\', 'r']
  else if c = '\\' then some ['\\', '\\']
  else if isControl c then
    some ['\\', 'u', '0', '0', capitalHexDigit (c.toNat / 16), capitalHexDigit (c.toNat % 16)]
  else none

/-- The characters of a text in a form with escapes. On one line every double quote is escaped; on
several, every third of a run is. `quotes` counts those that were just written without an escape. -/
def writeEscaped (lines : Bool) (quotes : Nat) : List Char → List Char
  | [] => []
  | c :: rest =>
    if c = '"' then
      if lines && quotes < 2 then '"' :: writeEscaped lines (quotes + 1) rest
      else '\\' :: '"' :: writeEscaped lines 0 rest
    else
      match escape? lines c with
      | some spelling => spelling ++ writeEscaped lines 0 rest
      | none => c :: writeEscaped lines 0 rest

/-- The spelling of a text, quotes included. A form of several lines starts on a new line if the text
has a line feed. -/
def writeText (cs : List Char) : List Char :=
  let start := if cs.contains '\n' then ['\n'] else []
  match textForm cs with
  | .basic => '"' :: (writeEscaped false 0 cs ++ ['"'])
  | .literal => '\x27' :: (cs ++ ['\x27'])
  | .basicLines => ['"', '"', '"'] ++ start ++ writeEscaped true 0 cs ++ ['"', '"', '"']
  | .literalLines =>
    ['\x27', '\x27', '\x27'] ++ start ++ cs ++ ['\x27', '\x27', '\x27']

end FleetHealth.Toml
