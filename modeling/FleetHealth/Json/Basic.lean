/-!
# JSON values

The values that a JSON text denotes, as far as a reader of records can tell them apart.
-/

namespace FleetHealth

/-- A JSON value.

A text is `none` when one of its escapes names half of a surrogate pair: such a text is grammatical
but has no characters, so it can be passed over but not read. A number written without fraction and
exponent is an `int`, except `-0`; every other number is a `real` and keeps its spelling. The members
of an object stand in the order of the text, repeated names included. -/
inductive Json where
  | null
  | bool (value : Bool)
  | int (value : Int)
  | real (literal : String)
  | str (text : Option String)
  | arr (items : List Json)
  | obj (members : List (Option String × Json))
  deriving Inhabited

namespace Json

/-- The JSON text with the given characters. -/
def ofString (s : String) : Json :=
  .str (some s)

/-- The JSON number for a natural number. -/
def ofNat (n : Nat) : Json :=
  .int n

/-- The object with the given members, in order. -/
def ofMembers (members : List (String × Json)) : Json :=
  .obj (members.map fun m => (some m.1, m.2))

/-- The members of an object, provided that every name has characters. -/
def members? : Json → Option (List (String × Json))
  | .obj members => members.mapM fun m => m.1.map fun name => (name, m.2)
  | _ => none

/-- The value of the first member of a name. -/
def member? (v : Json) (name : String) : Option Json :=
  match v with
  | .obj members => members.lookup (some name)
  | _ => none

/-- Of the members with one name, only the last, in the place of the first. -/
def lastOfEach (members : List (Option String × Json)) : List (Option String × Json) :=
  members.foldl (fun kept m =>
    if kept.any (·.1 == m.1) then kept.map fun k => if k.1 == m.1 then m else k
    else kept ++ [m]) []

mutual

/-- The value in which, at every depth, the last of the members with one name stands for them all. -/
def lastWins : Json → Json
  | .arr items => .arr (lastWinsItems items)
  | .obj members => .obj (lastOfEach (lastWinsMembers members))
  | v => v

/-- `lastWins` on the items of an array. -/
def lastWinsItems : List Json → List Json
  | [] => []
  | v :: rest => lastWins v :: lastWinsItems rest

/-- `lastWins` on the values of the members of an object. -/
def lastWinsMembers : List (Option String × Json) → List (Option String × Json)
  | [] => []
  | (name, v) :: rest => (name, lastWins v) :: lastWinsMembers rest

end

end Json

end FleetHealth
