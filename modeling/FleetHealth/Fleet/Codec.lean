import FleetHealth.Fleet.Record
import FleetHealth.Json.Codec
/-!
# The written form of the records

One codec a record. Each lists the fields in the order in which they are written, and says what an
absent one stands for.
-/

namespace FleetHealth

/-- The written name of a role. -/
def Role.name : Role → String
  | .node => "node"
  | .ns => "ns"

/-- Roles, by name. -/
def Role.codec : Codec Role :=
  Codec.choice Codec.isNull Role.name [.node, .ns]

/-- The written name of a tracking mode. -/
def TrackingMode.name : TrackingMode → String
  | .address => "address"
  | .node => "node"

/-- All tracking modes. -/
def TrackingMode.all : List TrackingMode :=
  [.address, .node]

/-- Tracking modes, by name. -/
def TrackingMode.codec : Codec TrackingMode :=
  Codec.choice Codec.isNull TrackingMode.name TrackingMode.all

/-- The written name of a type of message. -/
def MessageType.name : MessageType → String
  | .nodeUp => "health_check_node_up"
  | .nodeDown => "health_check_node_down"

/-- Types of message, by name. -/
def MessageType.codec : Codec MessageType :=
  Codec.choice Codec.isNull MessageType.name [.nodeUp, .nodeDown]

/-- The written name of a level. -/
def Level.name : Level → String
  | .success => "success"
  | .error => "error"

/-- Levels, by name. -/
def Level.codec : Codec Level :=
  Codec.choice Codec.isNull Level.name [.success, .error]

/-- The written name of a type of DNS task. -/
def DnsTaskType.name : DnsTaskType → String
  | .nodeChange => "node_change"

/-- Types of DNS task, by name. -/
def DnsTaskType.codec : Codec DnsTaskType :=
  Codec.choice Codec.isNull DnsTaskType.name [.nodeChange]

/-- Health, every field of which must be written. -/
def Health.codec : Codec Health :=
  Codec.record
    (.cons "is_up" .bool .refused <|
      .cons "consecutive_up" .uint32 .refused <|
      .cons "consecutive_down" .uint32 .refused <|
      .cons "state_changed_at" .uint64 .refused .nil)
    (fun h => (h.isUp, h.consecutiveUp, h.consecutiveDown, h.changedAt, ()))
    (fun (isUp, consecutiveUp, consecutiveDown, changedAt, ()) =>
      { isUp, consecutiveUp, consecutiveDown, changedAt })

/-- Policies, no field of which need be written. -/
def Policy.codec : Codec Policy :=
  Codec.record
    (.cons "url" .string (.always "") <|
      .cons "method" .string (.always "") <|
      .cons "status_codes" (.list .uint16) (.always []) <|
      .cons "user_agent" .string (.always "") <|
      .cons "timeout_ms" (.option .uint64) (.always none) <|
      .cons "max_attempts" .int64 (.always 0) <|
      .cons "try_delay_ms" (.option .uint64) (.always none) <|
      .cons "count_up" .uint32 (.always 0) <|
      .cons "count_down" .uint32 (.always 0) <|
      .cons "auto_down" .bool (.always false) <|
      .cons "only_basic_request" .bool (.always false) .nil)
    (fun p => (p.url, p.method, p.statusCodes, p.userAgent, p.timeoutMs, p.maxAttempts, p.tryDelayMs,
      p.countUp, p.countDown, p.autoDown, p.onlyBasicRequest, ()))
    (fun (url, method, statusCodes, userAgent, timeoutMs, maxAttempts, tryDelayMs, countUp, countDown,
        autoDown, onlyBasicRequest, ()) =>
      { url, method, statusCodes, userAgent, timeoutMs, maxAttempts, tryDelayMs, countUp, countDown,
        autoDown, onlyBasicRequest })

/-- Clusters. -/
def Cluster.codec : Codec Cluster :=
  Codec.record
    (.cons "id" .uint64 .refused <|
      .cons "name" .string .refused <|
      .cons "is_on" .bool .refused <|
      .cons "health_check" (.option Policy.codec) (.inObject none) <|
      .cons "created_at" .uint64 .refused .nil)
    (fun c => (c.id, c.name, c.isOn, c.healthCheck, c.createdAt, ()))
    (fun (id, name, isOn, healthCheck, createdAt, ()) =>
      { id, name, isOn, healthCheck, createdAt })

/-- Nodes. A node is of the first role and in fresh health unless its record says otherwise. -/
def Node.codec : Codec Node :=
  Codec.record
    (.cons "id" .uint64 .refused <|
      .cons "cluster_id" .uint64 .refused <|
      .cons "name" .string .refused <|
      .cons "is_on" .bool .refused <|
      .cons "role" Role.codec (.always .node) <|
      .cons "health" Health.codec (.always {}) <|
      .cons "created_at" .uint64 .refused .nil)
    (fun n => (n.id, n.clusterId, n.name, n.isOn, n.role, n.health, n.createdAt, ()))
    (fun (id, clusterId, name, isOn, role, health, createdAt, ()) =>
      { id, clusterId, name, isOn, role, health, createdAt })

/-- Addresses. -/
def Address.codec : Codec Address :=
  Codec.record
    (.cons "id" .uint64 .refused <|
      .cons "node_id" .uint64 .refused <|
      .cons "role" Role.codec (.always .node) <|
      .cons "name" .string (.always "") <|
      .cons "ip" .string .refused <|
      .cons "order" .int32 (.always 0) <|
      .cons "can_access" .bool .refused <|
      .cons "is_on" .bool .refused <|
      .cons "health" Health.codec (.always {}) <|
      .cons "backup_ip" (.option .string) (.always none) <|
      .cons "backup_threshold_id" (.option .uint64) (.always none) .nil)
    (fun a => (a.id, a.nodeId, a.role, a.name, a.ip, a.order, a.canAccess, a.isOn, a.health,
      a.backupIp, a.backupThresholdId, ()))
    (fun (id, nodeId, role, name, ip, order, canAccess, isOn, health, backupIp, backupThresholdId,
        ()) =>
      { id, nodeId, role, name, ip, order, canAccess, isOn, health, backupIp, backupThresholdId })

/-- Thresholds. -/
def Threshold.codec : Codec Threshold :=
  Codec.record
    (.cons "id" .uint64 .refused <|
      .cons "node_id" .uint64 .refused <|
      .cons "address_id" .uint64 .refused <|
      .cons "backup_ip" .string .refused .nil)
    (fun t => (t.id, t.nodeId, t.addressId, t.backupIp, ()))
    (fun (id, nodeId, addressId, backupIp, ()) => { id, nodeId, addressId, backupIp })

/-- Notifications. -/
def Notification.codec : Codec Notification :=
  Codec.record
    (.cons "id" .uint64 .refused <|
      .cons "role" Role.codec .refused <|
      .cons "cluster_id" .uint64 .refused <|
      .cons "node_id" .uint64 .refused <|
      .cons "message_type" MessageType.codec .refused <|
      .cons "level" Level.codec .refused <|
      .cons "subject" .string .refused <|
      .cons "body" .string .refused <|
      .cons "created_at" .uint64 .refused .nil)
    (fun n => (n.id, n.role, n.clusterId, n.nodeId, n.messageType, n.level, n.subject, n.body,
      n.createdAt, ()))
    (fun (id, role, clusterId, nodeId, messageType, level, subject, body, createdAt, ()) =>
      { id, role, clusterId, nodeId, messageType, level, subject, body, createdAt })

/-- DNS tasks. -/
def DnsTask.codec : Codec DnsTask :=
  Codec.record
    (.cons "node_id" .uint64 .refused <|
      .cons "task_type" DnsTaskType.codec .refused <|
      .cons "created_at" .uint64 .refused <|
      .cons "updated_at" .uint64 .refused .nil)
    (fun t => (t.nodeId, t.taskType, t.createdAt, t.updatedAt, ()))
    (fun (nodeId, taskType, createdAt, updatedAt, ()) => { nodeId, taskType, createdAt, updatedAt })

end FleetHealth
