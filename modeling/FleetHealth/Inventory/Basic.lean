import FleetHealth.Store.Fleet
/-!
# Inventories

An inventory lists records of a fleet. Loading one writes its records over those of the same number;
what the service itself keeps in a record, its health and its backup, stays. Nothing is written unless
every reference leads to a record of the inventory or of the store.
-/

namespace FleetHealth

/-- Records to be loaded into a store. -/
structure Inventory where
  clusters : List Cluster := []
  nodes : List Node := []
  addresses : List Address := []
  thresholds : List Threshold := []
  deriving DecidableEq, Repr, Inhabited

/-- How many records of each kind were written. -/
structure ImportSummary where
  clusters : Nat
  nodes : Nat
  addresses : Nat
  thresholds : Nat
  deriving DecidableEq, Repr, Inhabited

/-- Why an inventory was not loaded. -/
inductive InventoryError where
  | unknownCluster (nodeId clusterId : UInt64)
  | unknownNode (addressId nodeId : UInt64)
  | unknownAddress (thresholdId addressId : UInt64)
  | store (cause : StoreError)
  deriving DecidableEq, Repr, Inhabited

/-- The wording of an error. -/
def InventoryError.message : InventoryError → String
  | .unknownCluster nodeId clusterId =>
    s!"node {nodeId.toNat} refers to unknown cluster {clusterId.toNat}"
  | .unknownNode addressId nodeId =>
    s!"address {addressId.toNat} refers to unknown node {nodeId.toNat}"
  | .unknownAddress thresholdId addressId =>
    s!"threshold {thresholdId.toNat} refers to unknown address {addressId.toNat}"
  | .store cause => cause.message

namespace Inventory

/-- Inventories, no list of which need be written. -/
def codec : Codec Inventory :=
  Codec.record
    (.cons "clusters" (.list Cluster.codec) (.always []) <|
      .cons "nodes" (.list Node.codec) (.always []) <|
      .cons "addresses" (.list Address.codec) (.always []) <|
      .cons "thresholds" (.list Threshold.codec) (.always []) .nil)
    (fun i => (i.clusters, i.nodes, i.addresses, i.thresholds, ()))
    (fun (clusters, nodes, addresses, thresholds, ()) => { clusters, nodes, addresses, thresholds })

/-- The number of records of each kind. -/
def summary (i : Inventory) : ImportSummary :=
  { clusters := i.clusters.length, nodes := i.nodes.length, addresses := i.addresses.length,
    thresholds := i.thresholds.length }

/-! ## References -/

/-- Fails with `missing` unless a number is among those of the inventory or there is a record of that
number in the store. -/
def checkReference {α : Type} (known : List UInt64) (id : UInt64)
    (stored : Except StoreError (Option α)) (missing : InventoryError) :
    Except InventoryError Unit :=
  if known.contains id then .ok ()
  else
    match stored with
    | .ok (some _) => .ok ()
    | .ok none => .error missing
    | .error cause => .error (.store cause)

/-- Fails with the first reference that leads nowhere, if there is one: first of the nodes to their
clusters, then of the addresses to their nodes, then of the thresholds to their addresses. -/
def validate (i : Inventory) (s : Store) : Except InventoryError Unit := do
  i.nodes.forM fun n =>
    checkReference (i.clusters.map (·.id)) n.clusterId (s.getCluster n.clusterId)
      (.unknownCluster n.id n.clusterId)
  i.addresses.forM fun a =>
    checkReference (i.nodes.map (·.id)) a.nodeId (s.getNode a.nodeId)
      (.unknownNode a.id a.nodeId)
  i.thresholds.forM fun t =>
    checkReference (i.addresses.map (·.id)) t.addressId (s.getAddress t.addressId)
      (.unknownAddress t.id t.addressId)

/-! ## Loading -/

/-- Writes a node, with the health of the one that it replaces. -/
def loadNode (s : Store) (n : Node) : Except StoreError Store := do
  match ← s.getNode n.id with
  | some old => return s.putNode { n with health := old.health }
  | none => return s.putNode n

/-- Writes an address, with the health and the backup of the one that it replaces. -/
def loadAddress (s : Store) (a : Address) : Except StoreError Store := do
  match ← s.getAddress a.id with
  | some old =>
    return s.putAddress
      { a with
        health := old.health
        backupIp := old.backupIp
        backupThresholdId := old.backupThresholdId }
  | none => return s.putAddress a

/-- Writes records one after the other. A failure ends the writing and keeps what was written. -/
def loadEach {α : Type} (load : Store → α → Except StoreError Store) (s : Store) :
    List α → Except StoreError Unit × Store
  | [] => (.ok (), s)
  | a :: rest =>
    match load s a with
    | .ok s => loadEach load s rest
    | .error e => (.error e, s)

/-- Loads an inventory: the number of records written, and the store, which also after a failure holds
what was written before it. -/
def load (i : Inventory) (s : Store) : Except InventoryError ImportSummary × Store :=
  match i.validate s with
  | .error e => (.error e, s)
  | .ok () =>
    let s := i.clusters.foldl Store.putCluster s
    match loadEach loadNode s i.nodes with
    | (.error e, s) => (.error (.store e), s)
    | (.ok (), s) =>
      match loadEach loadAddress s i.addresses with
      | (.error e, s) => (.error (.store e), s)
      | (.ok (), s) => (.ok i.summary, i.thresholds.foldl Store.putThreshold s)

end Inventory

end FleetHealth
