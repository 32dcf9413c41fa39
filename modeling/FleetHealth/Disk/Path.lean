import FleetHealth.Text.Split
/-!
# Paths

A path is a text of names between slashes. It starts at the root if it starts with a slash, and it means a
directory if it ends with one.
-/

namespace FleetHealth

/-- Why nothing could be done at a path. -/
inductive DiskFault where
  | missing
  | present
  | notDirectory
  | directory
  | tooLong
  | nul
  /-- There is a file of another kind. -/
  | invalidData
  deriving DecidableEq, Repr, Inhabited

/-- The wording of a fault. -/
def DiskFault.message : DiskFault → String
  | .missing => "No such file or directory (os error 2)"
  | .present => "File exists (os error 17)"
  | .notDirectory => "Not a directory (os error 20)"
  | .directory => "Is a directory (os error 21)"
  | .tooLong => "File name too long (os error 36)"
  | .nul => "file name contained an unexpected NUL byte"
  | .invalidData => "invalid data"

/-- A path. -/
structure DiskPath where
  /-- Whether it starts at the root and not in the working directory. -/
  rooted : Bool
  /-- The names that lead on from there, none of them empty. -/
  names : List String
  /-- Whether a slash follows the last name. -/
  closed : Bool := false
  deriving DecidableEq, Repr, Inhabited

namespace DiskPath

/-- The most bytes of a path. -/
def mostBytes : Nat := 4095

/-- The most bytes of a name. -/
def mostNameBytes : Nat := 255

/-- The path that a text spells. The empty text leads nowhere. -/
def parse (text : String) : Except DiskFault DiskPath :=
  let cs := text.toList
  if cs.contains '\x00' then .error .nul
  else if mostBytes < text.utf8ByteSize then .error .tooLong
  else if cs.isEmpty then .error .missing
  else
    .ok
      { rooted := cs.head? == some '/'
        names := ((Text.splitAt '/' cs).filter (!·.isEmpty)).map String.ofList
        closed := cs.getLast? == some '/' }

/-- The text of a name behind the text of a path. -/
def join (path name : String) : String :=
  if path.isEmpty || path.endsWith "/" then path ++ name else path ++ "/" ++ name

/-- The path to what the last name is looked up in, and the last name. -/
def parent? (p : DiskPath) : Option (DiskPath × String) :=
  p.names.getLast?.map fun name => ({ p with names := p.names.dropLast, closed := true }, name)

/-- The path to as many names, where names that stay in a directory do not count. -/
def above (p : DiskPath) (n : Nat) : DiskPath :=
  { p with names := (p.names.filter (· != ".")).take n, closed := false }

/-- How many paths lie above a path. -/
def depth (p : DiskPath) : Nat :=
  (p.names.filter (· != ".")).length - 1

end DiskPath

end FleetHealth
