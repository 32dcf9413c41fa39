import FleetHealth.Store.Basic
/-!
# Clusters, nodes, addresses and thresholds

Looking up and changing the records of the fleet. Health and backups are changed in place, so that
they never carry an old copy of the rest of the record along.
-/

namespace FleetHealth.Store

/-! ## Clusters -/

/-- Stores a cluster. -/
def putCluster (s : Store) (c : Cluster) : Store :=
  s.put .clusters (idKey c.id) c

/-- The cluster of a number. -/
def getCluster (s : Store) (id : UInt64) : Except StoreError (Option Cluster) :=
  s.find? .clusters (idKey id)

/-- The cluster of a number, if it is switched on. -/
def findEnabledCluster (s : Store) (id : UInt64) : Except StoreError (Option Cluster) :=
  (s.getCluster id).map (·.filter (·.isOn))

/-- All clusters. -/
def listClusters (s : Store) : Except StoreError (List Cluster) :=
  s.scan .clusters fun _ => true

/-! ## Nodes -/

/-- Stores a node. -/
def putNode (s : Store) (n : Node) : Store :=
  s.put .nodes (idKey n.id) n

/-- The node of a number. -/
def getNode (s : Store) (id : UInt64) : Except StoreError (Option Node) :=
  s.find? .nodes (idKey id)

/-- The nodes of a cluster that are switched on. -/
def findEnabledNodes (s : Store) (clusterId : UInt64) : Except StoreError (List Node) :=
  s.scan .nodes fun n => n.clusterId == clusterId && n.isOn

/-- Changes the health of a node. -/
def updateNodeHealth {β : Type} (s : Store) (id : UInt64) (change : Health → Health × β) :
    Except StoreError (Node × β × Store) :=
  s.update .nodes (idKey id) fun n =>
    let (health, b) := change n.health
    ({ n with health }, b)

/-! ## Addresses -/

/-- Stores an address. -/
def putAddress (s : Store) (a : Address) : Store :=
  s.put .addresses (idKey a.id) a

/-- The address of a number. -/
def getAddress (s : Store) (id : UInt64) : Except StoreError (Option Address) :=
  s.find? .addresses (idKey id)

/-- The addresses of a node. -/
def listAddresses (s : Store) (nodeId : UInt64) : Except StoreError (List Address) :=
  s.scan .addresses fun a => a.nodeId == nodeId

/-- Of the addresses with the greatest order, the first. -/
def firstOfGreatestOrder : List Address → Option Address
  | [] => none
  | a :: rest =>
    match firstOfGreatestOrder rest with
    | some b => if a.order < b.order then some b else some a
    | none => some a

/-- The address on which a node is probed in a role: of those that are switched on, accessible and of
that role, the one of the greatest order, and of several such the one with the least key. -/
def findFirstAccessible (s : Store) (nodeId : UInt64) (role : Role) :
    Except StoreError (Option Address) :=
  (s.scan .addresses fun a => a.nodeId == nodeId && a.role == role && a.isOn && a.canAccess).map
    firstOfGreatestOrder

/-- Changes the health of an address. -/
def updateAddressHealth {β : Type} (s : Store) (id : UInt64) (change : Health → Health × β) :
    Except StoreError (Address × β × Store) :=
  s.update .addresses (idKey id) fun a =>
    let (health, b) := change a.health
    ({ a with health }, b)

/-- Puts a threshold's backup in place for an address, or takes the backup away, and tells whether that
changed anything. -/
def setAddressBackup (s : Store) (id : UInt64) (backup : Option (UInt64 × String)) :
    Except StoreError (Bool × Store) :=
  (s.update .addresses (idKey id) fun a =>
    let a' := { a with backupThresholdId := backup.map (·.1), backupIp := backup.map (·.2) }
    (a', a'.backupThresholdId != a.backupThresholdId || a'.backupIp != a.backupIp)).map (·.2)

/-! ## Thresholds -/

/-- Stores a threshold. -/
def putThreshold (s : Store) (t : Threshold) : Store :=
  s.put .thresholds (idKey t.id) t

/-- The thresholds of a node. -/
def listThresholds (s : Store) (nodeId : UInt64) : Except StoreError (List Threshold) :=
  s.scan .thresholds fun t => t.nodeId == nodeId

end FleetHealth.Store
