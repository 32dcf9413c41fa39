import FleetHealth.Store.Basic
/-!
# Stores as texts

The written form of a whole store: an object with a member for every table, which has a member for every
row.
-/

namespace FleetHealth.Store

/-- The written form of a table. -/
def tableJson (t : Table) : Json :=
  .ofMembers (t.rows.map fun row => (row.1, .ofString row.2))

/-- The written form of a store. -/
def document (s : Store) : String :=
  (Json.ofMembers (TableName.all.map fun name => (name.name, tableJson (s.table name)))).compact

/-- The store with the rows of a written table. -/
def putRows (s : Store) (name : TableName) (v : Json) : Option Store := do
  (← v.members?).foldlM (fun s row => do return s.putRow name row.1 (← Codec.string.decode row.2)) s

/-- The store that a text holds. A table that is not written is empty. -/
def ofDocument? (text : String) : Option Store := do
  let v ← Json.parse text
  let _ ← v.members?
  TableName.all.foldlM (fun s name =>
    match v.member? name.name with
    | some rows => s.putRows name rows
    | none => some s) {}

end FleetHealth.Store
