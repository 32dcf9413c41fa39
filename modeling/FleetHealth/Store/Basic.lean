import FleetHealth.Fleet.Codec
import FleetHealth.Store.Table
/-!
# The store

Six tables of JSON rows. A row may have been written by anyone, so reading one can fail; what the
library writes goes through the codec of the table's records. An operation that fails leaves the
store as it was.
-/

namespace FleetHealth

/-- The tables of a store. -/
inductive TableName where
  | clusters
  | nodes
  | addresses
  | notifications
  | dnsTasks
  | thresholds
  deriving DecidableEq, Repr, Inhabited

/-- All tables. -/
def TableName.all : List TableName :=
  [.clusters, .nodes, .addresses, .notifications, .dnsTasks, .thresholds]

/-- The written name of a table. -/
def TableName.name : TableName → String
  | .clusters => "clusters"
  | .nodes => "nodes"
  | .addresses => "addresses"
  | .notifications => "notifications"
  | .dnsTasks => "dns_tasks"
  | .thresholds => "thresholds"

/-- Why an operation on a store failed. -/
inductive StoreError where
  /-- There is no row to change under a key. -/
  | notFound (table : TableName) (key : String)
  /-- A stored row is not a record of its table. -/
  | undecodable
  /-- The store cannot be used. -/
  | unavailable
  deriving DecidableEq, Repr, Inhabited

/-- The wording of an error. -/
def StoreError.message : StoreError → String
  | .notFound table key => s!"no record '{key}' in table '{table.name}'"
  | .undecodable => "cannot decode stored record"
  | .unavailable => "cannot open state database"

/-- The state of a fleet. -/
structure Store where
  clusters : Table := .empty
  nodes : Table := .empty
  addresses : Table := .empty
  notifications : Table := .empty
  dnsTasks : Table := .empty
  thresholds : Table := .empty
  deriving Inhabited

/-- The key of a record with a number: the number in twenty digits, so that the order of the keys is
the order of the numbers. -/
def idKey (id : UInt64) : String :=
  String.ofList (Text.padded 20 id.toNat)

/-- The key of a DNS task. -/
def dnsTaskKey (nodeId : UInt64) (taskType : DnsTaskType) : String :=
  idKey nodeId ++ ":" ++ taskType.name

/-- A kind of record: the table that holds it and its written form. -/
structure Collection (α : Type) where
  table : TableName
  codec : Codec α

namespace Collection

/-- Clusters, by number. -/
def clusters : Collection Cluster := ⟨.clusters, Cluster.codec⟩

/-- Nodes, by number. -/
def nodes : Collection Node := ⟨.nodes, Node.codec⟩

/-- Addresses, by number. -/
def addresses : Collection Address := ⟨.addresses, Address.codec⟩

/-- Notifications, by number. -/
def notifications : Collection Notification := ⟨.notifications, Notification.codec⟩

/-- DNS tasks, by node and type. -/
def dnsTasks : Collection DnsTask := ⟨.dnsTasks, DnsTask.codec⟩

/-- Thresholds, by number. -/
def thresholds : Collection Threshold := ⟨.thresholds, Threshold.codec⟩

end Collection

namespace Store

/-- A table of the store. -/
def table (s : Store) : TableName → Table
  | .clusters => s.clusters
  | .nodes => s.nodes
  | .addresses => s.addresses
  | .notifications => s.notifications
  | .dnsTasks => s.dnsTasks
  | .thresholds => s.thresholds

/-- The store with another table in place of one of its tables. -/
def withTable (s : Store) (name : TableName) (t : Table) : Store :=
  match name with
  | .clusters => { s with clusters := t }
  | .nodes => { s with nodes := t }
  | .addresses => { s with addresses := t }
  | .notifications => { s with notifications := t }
  | .dnsTasks => { s with dnsTasks := t }
  | .thresholds => { s with thresholds := t }

@[simp] theorem table_withTable (s : Store) (name : TableName) (t : Table) :
    (s.withTable name t).table name = t := by
  cases name <;> rfl

theorem table_withTable_ne (s : Store) {name other : TableName} (t : Table) (h : other ≠ name) :
    (s.withTable name t).table other = s.table other := by
  cases name <;> cases other <;> first | rfl | exact absurd rfl h

/-- The store with a row of any text. -/
def putRow (s : Store) (name : TableName) (key value : String) : Store :=
  s.withTable name ((s.table name).put key value)

variable {α β : Type}

/-- The record that a row holds. -/
def decodeRow (c : Collection α) (value : String) : Except StoreError α :=
  match c.codec.read value with
  | some a => .ok a
  | none => .error .undecodable

/-- The record under a key. -/
def find? (s : Store) (c : Collection α) (key : String) : Except StoreError (Option α) :=
  match (s.table c.table).find? key with
  | some value => (decodeRow c value).map some
  | none => .ok none

/-- The records that pass a test, in the order of their keys. Every row must hold a record, whether it
passes or not. -/
def scan (s : Store) (c : Collection α) (keep : α → Bool) : Except StoreError (List α) := do
  let records ← (s.table c.table).rows.mapM fun row => decodeRow c row.2
  return records.filter keep

/-- The store with a record under a key. -/
def put (s : Store) (c : Collection α) (key : String) (a : α) : Store :=
  s.putRow c.table key (c.codec.write a)

/-- Changes the record under a key, which must exist: the record after the change, what the change
reports, and the store. -/
def update (s : Store) (c : Collection α) (key : String) (change : α → α × β) :
    Except StoreError (α × β × Store) := do
  match ← s.find? c key with
  | none => .error (.notFound c.table key)
  | some a =>
    let (a, b) := change a
    return (a, b, s.put c key a)

end Store

end FleetHealth
