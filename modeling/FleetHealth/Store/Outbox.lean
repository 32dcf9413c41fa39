import FleetHealth.Store.Basic
/-!
# Notifications and DNS tasks

What a change of health leaves for others to read. Notifications are numbered from one and only ever
appended; there is at most one DNS task a node and type, and taking the tasks empties the queue.
-/

namespace FleetHealth.Store

/-! ## Notifications -/

/-- The number that a key stands for, zero if it does not stand for one. -/
def numberOfKey (key : String) : UInt64 :=
  match Text.unsigned? 18446744073709551615 key.toList with
  | some n => UInt64.ofNat n
  | none => 0

/-- The number of the next notification: one more than the number of the last key. -/
def nextNotificationId (s : Store) : UInt64 :=
  match s.notifications.lastKey? with
  | some key => numberOfKey key + 1
  | none => 1

/-- A notification from its draft. -/
def numberDraft (draft : NotificationDraft) (id now : UInt64) : Notification :=
  { id, role := draft.role, clusterId := draft.clusterId, nodeId := draft.nodeId,
    messageType := draft.messageType, level := draft.level, subject := draft.subject,
    body := draft.body, createdAt := now }

/-- Appends a notification under the next number. -/
def createNotification (s : Store) (draft : NotificationDraft) (now : UInt64) :
    Notification × Store :=
  let n := numberDraft draft s.nextNotificationId now
  (n, s.put .notifications (idKey n.id) n)

/-- All notifications, oldest first. -/
def listNotifications (s : Store) : Except StoreError (List Notification) :=
  s.scan .notifications fun _ => true

/-! ## DNS tasks -/

/-- Asks for a node to be published again. A task that is already waiting keeps the time at which it was
first asked for. -/
def enqueueDnsTask (s : Store) (nodeId : UInt64) (taskType : DnsTaskType) (now : UInt64) :
    Except StoreError (DnsTask × Store) := do
  let key := dnsTaskKey nodeId taskType
  let waiting ← s.find? .dnsTasks key
  let task : DnsTask :=
    { nodeId, taskType, createdAt := (waiting.map (·.createdAt)).getD now, updatedAt := now }
  return (task, s.put .dnsTasks key task)

/-- The tasks that wait. -/
def listDnsTasks (s : Store) : Except StoreError (List DnsTask) :=
  s.scan .dnsTasks fun _ => true

/-- Takes all tasks out of the queue. -/
def takeDnsTasks (s : Store) : Except StoreError (List DnsTask × Store) := do
  let tasks ← s.listDnsTasks
  return (tasks, { s with dnsTasks := .empty })

end FleetHealth.Store
