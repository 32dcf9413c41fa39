/-!
# The records of a fleet

A fleet is a set of clusters of edge nodes. Each node has addresses, and an address may have
thresholds that name a backup for it. Notifications and DNS tasks are what a change of health leaves
behind for people and for the DNS service.
-/

namespace FleetHealth

/-- The part a node, or one of its addresses, plays in the fleet. -/
inductive Role where
  | node
  | ns
  deriving DecidableEq, Repr, Inhabited

/-- What the counters of a health check belong to. -/
inductive TrackingMode where
  | address
  | node
  deriving DecidableEq, Repr, Inhabited

/-- The verdict on an address or a node and the evidence since the last check of the other outcome.
A new record is up, without evidence. -/
structure Health where
  isUp : Bool := true
  consecutiveUp : UInt32 := 0
  consecutiveDown : UInt32 := 0
  changedAt : UInt64 := 0
  deriving DecidableEq, Repr, Inhabited

/-- How a cluster wants its nodes checked, as it was written down: empty texts, zeros and absent times
leave the choice to the defaults of `Policy.snapshot`. -/
structure Policy where
  url : String := ""
  method : String := ""
  statusCodes : List UInt16 := []
  userAgent : String := ""
  timeoutMs : Option UInt64 := none
  maxAttempts : Int64 := 0
  tryDelayMs : Option UInt64 := none
  countUp : UInt32 := 0
  countDown : UInt32 := 0
  autoDown : Bool := false
  onlyBasicRequest : Bool := false
  deriving DecidableEq, Repr, Inhabited

/-- A group of nodes under one policy. -/
structure Cluster where
  id : UInt64
  name : String
  isOn : Bool
  healthCheck : Option Policy
  createdAt : UInt64
  deriving DecidableEq, Repr, Inhabited

/-- A node of a cluster. -/
structure Node where
  id : UInt64
  clusterId : UInt64
  name : String
  isOn : Bool
  role : Role := .node
  health : Health := {}
  createdAt : UInt64
  deriving DecidableEq, Repr, Inhabited

/-- An address of a node. The backup fields hold the address that stands in for it while it is down,
and the threshold that named it. -/
structure Address where
  id : UInt64
  nodeId : UInt64
  role : Role := .node
  name : String := ""
  ip : String
  order : Int32 := 0
  canAccess : Bool
  isOn : Bool
  health : Health := {}
  backupIp : Option String := none
  backupThresholdId : Option UInt64 := none
  deriving DecidableEq, Repr, Inhabited

/-- A backup for an address, put in place when the node goes down. -/
structure Threshold where
  id : UInt64
  nodeId : UInt64
  addressId : UInt64
  backupIp : String
  deriving DecidableEq, Repr, Inhabited

/-- What a notification reports. -/
inductive MessageType where
  | nodeUp
  | nodeDown
  deriving DecidableEq, Repr, Inhabited

/-- How grave a notification is. -/
inductive Level where
  | success
  | error
  deriving DecidableEq, Repr, Inhabited

/-- A notification before it has an identity of its own. -/
structure NotificationDraft where
  role : Role
  clusterId : UInt64
  nodeId : UInt64
  messageType : MessageType
  level : Level
  subject : String
  body : String
  deriving DecidableEq, Repr, Inhabited

/-- A message to the people who look after the fleet. -/
structure Notification where
  id : UInt64
  role : Role
  clusterId : UInt64
  nodeId : UInt64
  messageType : MessageType
  level : Level
  subject : String
  body : String
  createdAt : UInt64
  deriving DecidableEq, Repr, Inhabited

/-- What the DNS service is asked to do. -/
inductive DnsTaskType where
  | nodeChange
  deriving DecidableEq, Repr, Inhabited

/-- A request to the DNS service to publish a node again. -/
structure DnsTask where
  nodeId : UInt64
  taskType : DnsTaskType
  createdAt : UInt64
  updatedAt : UInt64
  deriving DecidableEq, Repr, Inhabited

end FleetHealth
