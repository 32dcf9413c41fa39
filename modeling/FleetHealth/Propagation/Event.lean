import FleetHealth.Fleet.Record
import FleetHealth.Health.Tracker
/-!
# Changes of health as events

What everyone who reacts to a change of health is told, and how it is put into words.
-/

namespace FleetHealth

/-- Whether nodes of a role are published in DNS. -/
def Role.participatesInDns : Role → Bool
  | .node => true
  | .ns => false

/-- A change of the verdict on an address of a node, or on the node as a whole. -/
structure Event where
  clusterId : UInt64
  nodeId : UInt64
  nodeName : String
  role : Role
  /-- The address whose health changed; absent when health belongs to nodes. -/
  addressId : Option UInt64
  address : Option String
  wasUp : Bool
  isUp : Bool
  /-- Why the last check failed. -/
  reason : Option String
  deriving DecidableEq, Repr, Inhabited

namespace Event

/-- A change of the health of an address. -/
def ofAddress (n : Node) (a : Address) (t : Transition) (reason : Option String) : Event :=
  { clusterId := n.clusterId, nodeId := n.id, nodeName := n.name, role := n.role,
    addressId := some a.id, address := some a.ip, wasUp := t.wasUp, isUp := t.isUp, reason }

/-- A change of the health of a node. -/
def ofNode (n : Node) (t : Transition) (reason : Option String) : Event :=
  { clusterId := n.clusterId, nodeId := n.id, nodeName := n.name, role := n.role,
    addressId := none, address := none, wasUp := t.wasUp, isUp := t.isUp, reason }

/-- What a notification of the event reports. -/
def messageType (e : Event) : MessageType :=
  if e.isUp then .nodeUp else .nodeDown

/-- How grave the event is. -/
def level (e : Event) : Level :=
  if e.isUp then .success else .error

/-- The event in one line. -/
def subject (e : Event) : String :=
  let state := if e.isUp then "up" else "down"
  match e.address with
  | some ip => s!"node '{e.nodeName}' address {ip} is {state}"
  | none => s!"node '{e.nodeName}' is {state}"

/-- What was taken offline or brought back. -/
def target (e : Event) : String :=
  match e.address with
  | some ip => s!"address {ip} of node '{e.nodeName}'"
  | none => s!"node '{e.nodeName}'"

/-- The event in full. -/
def body (e : Event) : String :=
  if e.isUp then s!"health check passed again, {e.target} was brought back online"
  else
    match e.reason with
    | some reason => s!"health check failed, {e.target} was taken offline automatically: {reason}"
    | none => s!"health check failed, {e.target} was taken offline automatically"

/-- The notification of the event. -/
def draft (e : Event) : NotificationDraft :=
  { role := e.role, clusterId := e.clusterId, nodeId := e.nodeId, messageType := e.messageType,
    level := e.level, subject := e.subject, body := e.body }

end Event

end FleetHealth
