import FleetHealth.Json.Token
/-!
# From tokens to a value and back

`parse` folds one state over the tokens of a text. Everything still open lies on a stack in the state,
so a text may be nested to any depth. `tokens` is the way back, and `compact` spells those tokens with
nothing in between.
-/

namespace FleetHealth.Json

/-- An array or object that is still open and waits for the value of an item or a member. What it
holds so far stands last first. -/
inductive Frame where
  | item (items : List Json)
  | member (members : List (Option String × Json)) (name : Option String)

/-- What must come next, and what is open around it, innermost first. -/
inductive State where
  /-- A value, or the end of the array that was just opened if `first`. -/
  | value (first : Bool) (frames : List Frame)
  /-- A member's name, or the end of the object that was just opened if `first`. -/
  | label (first : Bool) (members : List (Option String × Json)) (frames : List Frame)
  /-- The colon after a member's name. -/
  | colon (members : List (Option String × Json)) (name : Option String) (frames : List Frame)
  /-- A comma or the end of an array. -/
  | afterItem (items : List Json) (frames : List Frame)
  /-- A comma or the end of an object. -/
  | afterMember (members : List (Option String × Json)) (frames : List Frame)
  /-- Nothing: the value is complete. -/
  | done (value : Json)

/-- Puts a complete value into the innermost open array or object. -/
def deliver (v : Json) : List Frame → State
  | [] => .done v
  | .item items :: rest => .afterItem (v :: items) rest
  | .member members name :: rest => .afterMember ((name, v) :: members) rest

/-- The state after one more token, if the token may stand there. -/
def State.step : State → Token → Option State
  | .value _ frames, .arrOpen => some (.value true (.item [] :: frames))
  | .value _ frames, .objOpen => some (.label true [] frames)
  | .value true (.item [] :: frames), .arrClose => some (deliver (.arr []) frames)
  | .value _ frames, .null => some (deliver .null frames)
  | .value _ frames, .bool b => some (deliver (.bool b) frames)
  | .value _ frames, .int n => some (deliver (.int n) frames)
  | .value _ frames, .real literal => some (deliver (.real literal) frames)
  | .value _ frames, .str text => some (deliver (.str text) frames)
  | .label _ members frames, .str text => some (.colon members text frames)
  | .label true [] frames, .objClose => some (deliver (.obj []) frames)
  | .colon members name frames, .colon => some (.value false (.member members name :: frames))
  | .afterItem items frames, .comma => some (.value false (.item items :: frames))
  | .afterItem items frames, .arrClose => some (deliver (.arr items.reverse) frames)
  | .afterMember members frames, .comma => some (.label false members frames)
  | .afterMember members frames, .objClose => some (deliver (.obj members.reverse) frames)
  | _, _ => none

/-- The value that a sequence of tokens spells. -/
def ofTokens? (ts : List Token) : Option Json :=
  match ts.foldlM State.step (.value false []) with
  | some (.done v) => some v
  | _ => none

/-- The value that a text denotes, if the text is JSON. -/
def parse (s : String) : Option Json :=
  (Token.scan s.toList).bind ofTokens?

mutual

/-- The tokens that spell a value. -/
def tokens : Json → List Token
  | .null => [.null]
  | .bool b => [.bool b]
  | .int n => [.int n]
  | .real literal => [.real literal]
  | .str text => [.str text]
  | .arr items => .arrOpen :: (itemTokens items ++ [.arrClose])
  | .obj members => .objOpen :: (memberTokens members ++ [.objClose])

/-- The tokens of the items of an array, with the commas between them. -/
def itemTokens : List Json → List Token
  | [] => []
  | [v] => tokens v
  | v :: rest => tokens v ++ .comma :: itemTokens rest

/-- The tokens of the members of an object, with the commas between them. -/
def memberTokens : List (Option String × Json) → List Token
  | [] => []
  | [(name, v)] => .str name :: .colon :: tokens v
  | (name, v) :: rest => .str name :: .colon :: (tokens v ++ .comma :: memberTokens rest)

end

/-- The text of a value, without white space. -/
def compact (v : Json) : String :=
  String.ofList ((tokens v).flatMap Token.write)

/-! ## Indented text -/

/-- A new line and the indentation of the given depth, two spaces a level. -/
def newline (depth : Nat) : List Char :=
  '\n' :: List.replicate (2 * depth) ' '

mutual

/-- The characters of a value with one item or member a line, at the given depth. -/
def indentedChars (depth : Nat) : Json → List Char
  | .arr [] => ['[', ']']
  | .arr items => '[' :: (indentedItems (depth + 1) items ++ newline depth ++ [']'])
  | .obj [] => ['\x7b', '\x7d']
  | .obj members => '\x7b' :: (indentedMembers (depth + 1) members ++ newline depth ++ ['\x7d'])
  | .null => Token.null.write
  | .bool b => (Token.bool b).write
  | .int n => (Token.int n).write
  | .real literal => (Token.real literal).write
  | .str text => (Token.str text).write

/-- The items of an array, each on its own line. -/
def indentedItems (depth : Nat) : List Json → List Char
  | [] => []
  | [v] => newline depth ++ indentedChars depth v
  | v :: rest => newline depth ++ indentedChars depth v ++ ',' :: indentedItems depth rest

/-- The members of an object, each on its own line. -/
def indentedMembers (depth : Nat) : List (Option String × Json) → List Char
  | [] => []
  | [(name, v)] => newline depth ++ writeString name ++ [':', ' '] ++ indentedChars depth v
  | (name, v) :: rest =>
    newline depth ++ writeString name ++ [':', ' '] ++ indentedChars depth v
      ++ ',' :: indentedMembers depth rest

end

/-- The text of a value with one item or member a line. -/
def indented (v : Json) : String :=
  String.ofList (indentedChars 0 v)

end FleetHealth.Json
