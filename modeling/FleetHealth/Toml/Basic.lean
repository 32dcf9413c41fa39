import FleetHealth.Json.Basic
/-!
# TOML values

The values of a TOML document and the statements it is made of.
-/

namespace FleetHealth.Toml

/-- A TOML value. Floats, dates and times keep their spelling. -/
inductive Value where
  | str (text : String)
  | int (value : Int)
  | float (literal : String)
  | bool (value : Bool)
  | datetime (literal : String)
  | arr (items : List Value)
  | table (entries : List (String × Value))
  deriving Inhabited

/-- A statement of a document. A path is a sequence of names. -/
inductive Statement where
  /-- The header of a table: what follows belongs to the table at this path. -/
  | header (path : List String)
  /-- The header of one more table in the array at this path. -/
  | arrayHeader (path : List String)
  /-- A value for the last name of a path. -/
  | assign (path : List String) (value : Value)
  deriving Inhabited

mutual

/-- The value as readers of records see it: floats, dates and times are numbers that none of them
takes. -/
def Value.toJson : Value → Json
  | .str text => .str (some text)
  | .int n => .int n
  | .float literal => .real literal
  | .bool b => .bool b
  | .datetime literal => .real literal
  | .arr items => .arr (itemsToJson items)
  | .table entries => .obj (entriesToJson entries)

/-- The items of an array as readers of records see them. -/
def itemsToJson : List Value → List Json
  | [] => []
  | v :: rest => v.toJson :: itemsToJson rest

/-- The entries of a table as readers of records see them. -/
def entriesToJson : List (String × Value) → List (Option String × Json)
  | [] => []
  | (name, v) :: rest => (some name, v.toJson) :: entriesToJson rest

end

end FleetHealth.Toml
