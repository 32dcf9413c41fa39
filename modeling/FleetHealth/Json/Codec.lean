import FleetHealth.Json.Tree
/-!
# Reading and writing domain values as JSON

A `Codec` writes the values of a type as JSON and reads them back. `Fields` lists the members of a
record once, with what an absent member stands for; reading an object, reading an array of the fields
in order and writing an object all follow from that list.
-/

namespace FleetHealth

/-- How the values of a type are written as JSON, and which JSON values are read as which of them. -/
structure Codec (α : Type) where
  encode : α → Json
  decode : Json → Option α

namespace Codec

variable {α β : Type}

/-- Truth values. -/
def bool : Codec Bool where
  encode := .bool
  decode
    | .bool b => some b
    | _ => none

/-- Texts. -/
def string : Codec String where
  encode s := .str (some s)
  decode
    | .str text => text
    | _ => none

/-- The integer of a number between two bounds. -/
def boundedInt (lo hi : Int) : Json → Option Int
  | .int n => if lo ≤ n ∧ n ≤ hi then some n else none
  | _ => none

/-- Unsigned integers of 16 bits. -/
def uint16 : Codec UInt16 where
  encode n := .int n.toNat
  decode v := (boundedInt 0 65535 v).map fun n => UInt16.ofNat n.toNat

/-- Unsigned integers of 32 bits. -/
def uint32 : Codec UInt32 where
  encode n := .int n.toNat
  decode v := (boundedInt 0 4294967295 v).map fun n => UInt32.ofNat n.toNat

/-- Unsigned integers of 64 bits. -/
def uint64 : Codec UInt64 where
  encode n := .int n.toNat
  decode v := (boundedInt 0 18446744073709551615 v).map fun n => UInt64.ofNat n.toNat

/-- Signed integers of 32 bits. -/
def int32 : Codec Int32 where
  encode n := .int n.toInt
  decode v := (boundedInt (-2147483648) 2147483647 v).map Int32.ofInt

/-- Signed integers of 64 bits. -/
def int64 : Codec Int64 where
  encode n := .int n.toInt
  decode v := (boundedInt (-9223372036854775808) 9223372036854775807 v).map Int64.ofInt

/-- Values that may be absent, which `null` stands for. -/
def option (c : Codec α) : Codec (Option α) where
  encode
    | none => .null
    | some a => c.encode a
  decode
    | .null => some none
    | v => (c.decode v).map some

/-- Lists. -/
def list (c : Codec α) : Codec (List α) where
  encode as := .arr (as.map c.encode)
  decode
    | .arr items => items.mapM c.decode
    | _ => none

/-- Whether a value is `null`. -/
def isNull : Json → Bool
  | .null => true
  | _ => false

/-- Values that are named: written as their names, and read from a name or from an object whose one
member has that name and a value that `bare` accepts as the payload of a plain name. -/
def choice (bare : Json → Bool) (name : α → String) (values : List α) : Codec α where
  encode a := .str (some (name a))
  decode
    | .str (some s) => values.find? (name · == s)
    | .obj [(some s, payload)] => if bare payload then values.find? (name · == s) else none
    | _ => none

end Codec

/-- What stands for a member of a record that is not written. -/
inductive Absent (α : Type) where
  /-- Nothing: the member must be written. -/
  | refused
  /-- A value, unless the record is written as an array. -/
  | inObject (value : α)
  /-- A value in every form of the record. -/
  | always (value : α)

/-- What an absent member of an object stands for. -/
def Absent.ofObject? {α : Type} : Absent α → Option α
  | .refused => none
  | .inObject a => some a
  | .always a => some a

/-- What a member past the end of an array stands for. -/
def Absent.ofArray? {α : Type} : Absent α → Option α
  | .refused => none
  | .inObject _ => none
  | .always a => some a

/-- The members of a record in order: their names, codecs and what each stands for when absent. The
index is the type of the tuple of their values. -/
inductive Fields : Type → Type 1 where
  | nil : Fields Unit
  | cons {α β : Type} (name : String) (codec : Codec α) (absent : Absent α) (rest : Fields β) :
    Fields (α × β)

namespace Fields

/-- The value of the one member of a name, if there is at most one. -/
def decodeMember {α : Type} (codec : Codec α) (absent : Absent α) (name : String)
    (members : List (String × Json)) : Option α :=
  match members.filter (·.1 == name) with
  | [] => absent.ofObject?
  | [m] => codec.decode m.2
  | _ => none

/-- Reads the fields from the members of an object; members of other names are passed over. -/
def decodeMembers : {τ : Type} → Fields τ → List (String × Json) → Option τ
  | _, .nil, _ => some ()
  | _, .cons name codec absent rest, members => do
    let a ← decodeMember codec absent name members
    let b ← rest.decodeMembers members
    some (a, b)

/-- Reads the fields from the items of an array, in order. Items after the last field are passed over
if `surplus`, and refused otherwise. -/
def decodeItems (surplus : Bool) : {τ : Type} → Fields τ → List Json → Option τ
  | _, .nil, [] => some ()
  | _, .nil, _ :: _ => if surplus then some () else none
  | _, .cons _ codec _ rest, v :: items => do
    let a ← codec.decode v
    let b ← rest.decodeItems surplus items
    some (a, b)
  | _, .cons _ _ absent rest, [] => do
    let a ← absent.ofArray?
    let b ← rest.decodeItems surplus []
    some (a, b)

/-- The members of the object for a tuple of values. -/
def encodeMembers : {τ : Type} → Fields τ → τ → List (String × Json)
  | _, .nil, _ => []
  | _, .cons name codec _ rest, (a, b) => (name, codec.encode a) :: rest.encodeMembers b

end Fields

/-- Records: written as objects of their fields in order, and read from objects and from arrays, which
may hold more than the fields if `surplus`. -/
def Codec.recordWith {ρ τ : Type} (surplus : Bool) (fields : Fields τ) (toTuple : ρ → τ)
    (ofTuple : τ → ρ) : Codec ρ where
  encode r := Json.ofMembers (fields.encodeMembers (toTuple r))
  decode
    | .arr items => (fields.decodeItems surplus items).map ofTuple
    | v => (v.members?.bind fields.decodeMembers).map ofTuple

/-- Records, whose arrays hold nothing but the fields. -/
def Codec.record {ρ τ : Type} (fields : Fields τ) (toTuple : ρ → τ) (ofTuple : τ → ρ) : Codec ρ :=
  .recordWith false fields toTuple ofTuple

/-- The compact text of a value. -/
def Codec.write {α : Type} (c : Codec α) (a : α) : String :=
  Json.compact (c.encode a)

/-- The value that a text denotes. -/
def Codec.read {α : Type} (c : Codec α) (s : String) : Option α :=
  (Json.parse s).bind c.decode

end FleetHealth
