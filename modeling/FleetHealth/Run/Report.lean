import FleetHealth.Health.Ledger
import FleetHealth.Probe.Attempt
import FleetHealth.Propagation.Pipeline
/-!
# Settling a check

What becomes of the result of one check: health is recorded, a change of the verdict is passed on, and
the run gets a report.
-/

namespace FleetHealth

/-- A node and the address it is checked on. -/
structure Target where
  node : Node
  address : Address
  deriving DecidableEq, Repr, Inhabited

/-- What a run says about one node. -/
structure Report where
  nodeId : UInt64
  nodeName : String
  addressId : Option UInt64
  address : Option String
  /-- Whether the check of this run passed. -/
  isUp : Bool
  error : Option String
  /-- The time spent on probes, in milliseconds. -/
  cost : Nat
  attempts : Nat
  /-- The new verdict, if the run changed it. -/
  transitionedTo : Option Bool
  /-- The handlers that failed to react to the change. -/
  failedHandlers : List String
  deriving DecidableEq, Repr, Inhabited

/-- The reason given for a node without an address to probe. -/
def noAddressReason : String := "no address available"

/-- The reason given for a target whose worker died, or that no worker was left to take. -/
def abortedReason : String := "health check worker aborted"

namespace Report

/-- The report on a node that was not checked. -/
def unchecked (n : Node) (a : Option Address) (reason : String) : Report :=
  { nodeId := n.id, nodeName := n.name, addressId := a.map (·.id), address := a.map (·.ip),
    isUp := false, error := some reason, cost := 0, attempts := 0, transitionedTo := none,
    failedHandlers := [] }

/-- The report on a node without an address to probe. -/
def noAddress (n : Node) : Report :=
  unchecked n none noAddressReason

/-- The report on a target whose check did not end. -/
def aborted (t : Target) : Report :=
  unchecked t.node (some t.address) abortedReason

/-- The report on a checked target, without a change of the verdict. -/
def checked (t : Target) (result : CheckResult) : Report :=
  { nodeId := t.node.id, nodeName := t.node.name, addressId := some t.address.id,
    address := some t.address.ip, isUp := result.passed, error := result.reason,
    cost := result.elapsed, attempts := result.attempts, transitionedTo := none,
    failedHandlers := [] }

/-- The written form of a report, in which nothing stands for a change or a failure that there was
not. -/
def toJson (r : Report) : Json :=
  .ofMembers <|
    [("node_id", Codec.uint64.encode r.nodeId), ("node_name", .ofString r.nodeName),
      ("address_id", (Codec.option .uint64).encode r.addressId),
      ("address", (Codec.option .string).encode r.address), ("is_up", .bool r.isUp),
      ("error", (Codec.option .string).encode r.error), ("cost_ms", .ofNat r.cost),
      ("attempts", .ofNat r.attempts)]
    ++ (r.transitionedTo.toList.map fun isUp => ("transitioned_to", .bool isUp))
    ++ (if r.failedHandlers.isEmpty then []
        else [("failed_handlers", (Codec.list .string).encode r.failedHandlers)])

end Report

/-- What the checks of a run have in common. -/
structure RunSettings where
  policy : PolicySnapshot
  mode : TrackingMode
  handlers : List Handler

/-- Records the result of a check in the store that keeps health: the event to pass on if the verdict
changed, and the store. A record that cannot be changed is left alone. When health belongs to nodes,
it is only kept under a policy that may take nodes down. -/
def RunSettings.record (c : RunSettings) (t : Target) (result : CheckResult) (now : UInt64)
    (ledger : Store) : Option Event × Store :=
  match c.mode with
  | .address =>
    match ledger.recordAddress t.address.id c.policy.tracker result.passed now with
    | .ok (a, change, ledger) =>
      (change.map fun change => .ofAddress t.node a change result.reason, ledger)
    | .error _ => (none, ledger)
  | .node =>
    if c.policy.autoDown then
      match ledger.recordNode t.node.id c.policy.tracker result.passed now with
      | .ok (n, change, ledger) =>
        (change.map fun change => .ofNode n change result.reason, ledger)
      | .error _ => (none, ledger)
    else (none, ledger)

/-- Passes the event of a check on and reports on the target. -/
def RunSettings.conclude (c : RunSettings) (t : Target) (result : CheckResult) (event : Option Event)
    (now : UInt64) (s : Store) : Report × Store :=
  match event with
  | some e =>
    let (failed, s) := applyEvent e now c.handlers s
    ({ Report.checked t result with transitionedTo := some e.isUp, failedHandlers := failed }, s)
  | none => (Report.checked t result, s)

/-- Settles a check: the report, the store of the fleet, and the store that keeps health if that is
another one. -/
def RunSettings.settle (c : RunSettings) (t : Target) (result : CheckResult) (now : UInt64)
    (s : Store) (ledger : Option Store) : Report × Store × Option Store :=
  match ledger with
  | none =>
    let (event, s) := c.record t result now s
    let (report, s) := c.conclude t result event now s
    (report, s, none)
  | some l =>
    let (event, l) := c.record t result now l
    let (report, s) := c.conclude t result event now s
    (report, s, some l)

end FleetHealth
