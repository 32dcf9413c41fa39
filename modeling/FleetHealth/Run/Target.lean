import FleetHealth.Policy.Snapshot
import FleetHealth.Store.Fleet
/-!
# What a run checks

A run works on what it finds in the store at its start: the snapshot of the cluster's policy, and for
every node that is switched on the address to probe it on, if it has one.
-/

namespace FleetHealth

/-- Why a run cannot start. -/
inductive RunError where
  | clusterNotFound (clusterId : UInt64)
  | policyMissing (clusterId : UInt64)
  | policyMalformed (cause : PolicyError)
  | store (cause : StoreError)
  deriving DecidableEq, Repr, Inhabited

/-- The wording of an error. -/
def RunError.message : RunError → String
  | .clusterNotFound id => s!"can not find enabled cluster with id '{id.toNat}'"
  | .policyMissing id => s!"health check policy is not configured for cluster '{id.toNat}'"
  | .policyMalformed cause => s!"invalid health check policy: {cause.message}"
  | .store cause => s!"state store error: {cause.message}"

/-- All that a run needs to know. -/
structure Resolved where
  cluster : Cluster
  policy : PolicySnapshot
  /-- The nodes that are switched on, each with the address to probe it on. -/
  targets : List (Node × Option Address)
  deriving Inhabited

namespace Store

/-- A node with the address to probe it on. -/
def addressOf (s : Store) (n : Node) : Except StoreError (Node × Option Address) :=
  (s.findFirstAccessible n.id n.role).map fun a => (n, a)

/-- What a run of a cluster checks. -/
def resolve (s : Store) (clusterId : UInt64) : Except RunError Resolved := do
  let some cluster ← (s.findEnabledCluster clusterId).mapError .store
    | .error (.clusterNotFound clusterId)
  let some policy := cluster.healthCheck
    | .error (.policyMissing clusterId)
  let policy ← policy.snapshot.mapError .policyMalformed
  let nodes ← (s.findEnabledNodes clusterId).mapError .store
  let targets ← (nodes.mapM s.addressOf).mapError .store
  return { cluster, policy, targets }

end Store

end FleetHealth
