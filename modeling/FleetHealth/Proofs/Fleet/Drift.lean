import FleetHealth.Proofs.Fleet.Codec
import FleetHealth.Proofs.Json.Drift
/-!
# Records of other versions

What the fields of each record are called, how they are written, and what stands for one that is left
out. The lists are independent of the codecs, and every codec honours its list: it reads a record from
each text in which another version may have written it, and refuses a text that stands for no record.

* `records_tolerate_drift` — all of this for the seven records, in every text.
-/

namespace FleetHealth

open FieldForm Codec

/-! ## The fields of the records -/

/-- The fields of health, none of which may be left out. -/
def Health.fields : List (FieldForm Health) :=
  [required "is_up" (·.isUp) (.plain .bool),
    required "consecutive_up" (·.consecutiveUp) (.plain .uint32),
    required "consecutive_down" (·.consecutiveDown) (.plain .uint32),
    required "state_changed_at" (·.changedAt) (.plain .uint64)]

/-- The fields of a policy, all of which may be left out. -/
def Policy.fields : List (FieldForm Policy) :=
  [defaulted "url" (·.url) (.plain .string) "",
    defaulted "method" (·.method) (.plain .string) "",
    defaulted "status_codes" (·.statusCodes) (.plain (.list .uint16)) [],
    defaulted "user_agent" (·.userAgent) (.plain .string) "",
    optional "timeout_ms" (·.timeoutMs) (.plain .uint64),
    defaulted "max_attempts" (·.maxAttempts) (.plain .int64) 0,
    optional "try_delay_ms" (·.tryDelayMs) (.plain .uint64),
    defaulted "count_up" (·.countUp) (.plain .uint32) 0,
    defaulted "count_down" (·.countDown) (.plain .uint32) 0,
    defaulted "auto_down" (·.autoDown) (.plain .bool) false,
    defaulted "only_basic_request" (·.onlyBasicRequest) (.plain .bool) false]

/-- The fields of a cluster. Its policy is a record of its own. -/
def Cluster.fields : List (FieldForm Cluster) :=
  [required "id" (·.id) (.plain .uint64),
    required "name" (·.name) (.plain .string),
    required "is_on" (·.isOn) (.plain .bool),
    optional "health_check" (·.healthCheck) (.record Policy.fields),
    required "created_at" (·.createdAt) (.plain .uint64)]

/-- The health of a record that has none written. -/
def Health.unwritten : Health where
  isUp := true
  consecutiveUp := 0
  consecutiveDown := 0
  changedAt := 0

/-- The fields of a node. -/
def Node.fields : List (FieldForm Node) :=
  [required "id" (·.id) (.plain .uint64),
    required "cluster_id" (·.clusterId) (.plain .uint64),
    required "name" (·.name) (.plain .string),
    required "is_on" (·.isOn) (.plain .bool),
    defaulted "role" (·.role) (.plain Role.codec) .node,
    defaulted "health" (·.health) (.record Health.fields) Health.unwritten,
    required "created_at" (·.createdAt) (.plain .uint64)]

/-- The fields of an address. -/
def Address.fields : List (FieldForm Address) :=
  [required "id" (·.id) (.plain .uint64),
    required "node_id" (·.nodeId) (.plain .uint64),
    defaulted "role" (·.role) (.plain Role.codec) .node,
    defaulted "name" (·.name) (.plain .string) "",
    required "ip" (·.ip) (.plain .string),
    defaulted "order" (·.order) (.plain .int32) 0,
    required "can_access" (·.canAccess) (.plain .bool),
    required "is_on" (·.isOn) (.plain .bool),
    defaulted "health" (·.health) (.record Health.fields) Health.unwritten,
    optional "backup_ip" (·.backupIp) (.plain .string),
    optional "backup_threshold_id" (·.backupThresholdId) (.plain .uint64)]

/-- The fields of a threshold. -/
def Threshold.fields : List (FieldForm Threshold) :=
  [required "id" (·.id) (.plain .uint64),
    required "node_id" (·.nodeId) (.plain .uint64),
    required "address_id" (·.addressId) (.plain .uint64),
    required "backup_ip" (·.backupIp) (.plain .string)]

/-- The fields of a notification. -/
def Notification.fields : List (FieldForm Notification) :=
  [required "id" (·.id) (.plain .uint64),
    required "role" (·.role) (.plain Role.codec),
    required "cluster_id" (·.clusterId) (.plain .uint64),
    required "node_id" (·.nodeId) (.plain .uint64),
    required "message_type" (·.messageType) (.plain MessageType.codec),
    required "level" (·.level) (.plain Level.codec),
    required "subject" (·.subject) (.plain .string),
    required "body" (·.body) (.plain .string),
    required "created_at" (·.createdAt) (.plain .uint64)]

/-- The fields of a DNS task. -/
def DnsTask.fields : List (FieldForm DnsTask) :=
  [required "node_id" (·.nodeId) (.plain .uint64),
    required "task_type" (·.taskType) (.plain DnsTaskType.codec),
    required "created_at" (·.createdAt) (.plain .uint64),
    required "updated_at" (·.updatedAt) (.plain .uint64)]

/-! ## The codecs -/

instance : Role.codec.Strict := ⟨rfl⟩

instance : MessageType.codec.Strict := ⟨rfl⟩

instance : Level.codec.Strict := ⟨rfl⟩

instance : DnsTaskType.codec.Strict := ⟨rfl⟩

instance : Policy.codec.Strict := ⟨rfl⟩

instance : Health.codec.Honours (.record Health.fields) :=
  honours_record (.cons <| .cons <| .cons <| .cons .nil) (by decide) fun _ => rfl

instance : Policy.codec.Honours (.record Policy.fields) :=
  honours_record
    (.cons <| .cons <| .cons <| .cons <| .cons <| .cons <| .cons <| .cons <| .cons <| .cons <|
      .cons .nil)
    (by decide) fun _ => rfl

instance : Cluster.codec.Honours (.record Cluster.fields) :=
  honours_record (.cons <| .cons <| .cons <| .cons <| .cons .nil) (by decide) fun _ => rfl

instance : Node.codec.Honours (.record Node.fields) :=
  honours_record (.cons <| .cons <| .cons <| .cons <| .cons <| .cons <| .cons .nil) (by decide)
    fun _ => rfl

instance : Address.codec.Honours (.record Address.fields) :=
  honours_record
    (.cons <| .cons <| .cons <| .cons <| .cons <| .cons <| .cons <| .cons <| .cons <| .cons <|
      .cons .nil)
    (by decide) fun _ => rfl

instance : Threshold.codec.Honours (.record Threshold.fields) :=
  honours_record (.cons <| .cons <| .cons <| .cons .nil) (by decide) fun _ => rfl

instance : Notification.codec.Honours (.record Notification.fields) :=
  honours_record
    (.cons <| .cons <| .cons <| .cons <| .cons <| .cons <| .cons <| .cons <| .cons .nil)
    (by decide) fun _ => rfl

instance : DnsTask.codec.Honours (.record DnsTask.fields) :=
  honours_record (.cons <| .cons <| .cons <| .cons .nil) (by decide) fun _ => rfl

/-- **Records tolerate drift.** A text in which another version may have written a record is read as
that record: its fields in any order, among members of other names, without those that are left out for
their defaults, and so in the policy and the health inside it. A text in which a field is missing,
repeated or refused is not read, nor is one with a name that has no characters. -/
theorem records_tolerate_drift :
    Cluster.codec.Tolerates (.record Cluster.fields)
      ∧ Policy.codec.Tolerates (.record Policy.fields)
      ∧ Node.codec.Tolerates (.record Node.fields)
      ∧ Address.codec.Tolerates (.record Address.fields)
      ∧ Threshold.codec.Tolerates (.record Threshold.fields)
      ∧ Notification.codec.Tolerates (.record Notification.fields)
      ∧ DnsTask.codec.Tolerates (.record DnsTask.fields) :=
  ⟨tolerates _ _, tolerates _ _, tolerates _ _, tolerates _ _, tolerates _ _, tolerates _ _,
    tolerates _ _⟩

/-- The members for the fields of a cluster whose policy only says that it takes nodes down. -/
def sparseMembers : List (String × Json) :=
  [("id", .int 1), ("name", .ofString "edge"), ("is_on", .bool true),
    ("health_check", .ofMembers [("auto_down", .bool true), ("weight", .int 2)]),
    ("created_at", .int 7)]

/-- What a later version may add: a member that holds half of a pair and a repeated name. -/
def laterMembers : List (String × Json) :=
  [("zone", .arr [.str none, .obj [(none, .null), (none, .null)]])]

/-- A text of another version: backwards, with a member too many in the cluster and in its policy, and
with one field of the policy. -/
def sparseText : String :=
  "\x7b\"zone\":[\"\\ud800\",\x7b\"\\ud800\":null,\"\\ud800\":null\x7d],\"created_at\":7," ++
    "\"health_check\":\x7b\"auto_down\":true,\"weight\":2\x7d,\"is_on\":true,\"name\":\"edge\",\"id\":1\x7d"

theorem records_tolerate_drift_sparseText :
    Cluster.codec.read sparseText = some
      { id := 1, name := "edge", isOn := true, healthCheck := some { autoDown := true },
        createdAt := 7 } := by
  have htext : sparseText = (Json.ofMembers (sparseMembers ++ laterMembers).reverse).compact := by
    decide +kernel
  have hspells : Json.Spells sparseText (.ofMembers (sparseMembers ++ laterMembers).reverse) := by
    rw [htext]
    exact Json.spells_compact (by repeat' constructor)
  have hpolicy : Drifted Policy.fields { autoDown := true }
      [("auto_down", .bool true), ("weight", .int 2)] := by
    refine ⟨[("auto_down", .bool true)], [("weight", .int 2)], ?_, by decide, .refl _⟩
    exact .leave rfl <| .leave rfl <| .leave rfl <| .leave rfl <| .leave rfl <| .leave rfl <|
      .leave rfl <| .leave rfl <| .leave rfl <| .write rfl <| .leave rfl .nil
  refine (records_tolerate_drift.1 _ _ hspells).1 _ ⟨_, rfl, sparseMembers, laterMembers, ?_,
    by decide, List.reverse_perm _⟩
  exact .write rfl <| .write rfl <| .write rfl <| .write ⟨_, rfl, hpolicy⟩ <| .write rfl .nil

/-- The members for the fields of a DNS task. -/
def pendingMembers : List (String × Json) :=
  [("node_id", .int 1), ("task_type", .ofString "node_change"), ("created_at", .int 2),
    ("updated_at", .int 3)]

/-- The text of those members after one whose name is half of a pair. -/
def namelessText : String :=
  "\x7b\"\\ud800\":0,\"node_id\":1,\"task_type\":\"node_change\",\"created_at\":2,\"updated_at\":3\x7d"

/-- No field has a name without characters, but a member with such a name is not passed over. -/
theorem DnsTask.unread_among_nameless :
    Written { nodeId := 1, taskType := .nodeChange, createdAt := 2, updatedAt := 3 } DnsTask.fields
        pendingMembers
      ∧ (∀ f ∈ DnsTask.fields, some f.name ≠ none)
      ∧ Json.Spells namelessText
        (.obj ((none, .int 0) :: pendingMembers.map fun m => (some m.1, m.2)))
      ∧ DnsTask.codec.read namelessText = none := by
  have htext : namelessText
      = (Json.obj ((none, .int 0) :: pendingMembers.map fun m => (some m.1, m.2))).compact := by
    decide +kernel
  have hspells : Json.Spells namelessText
      (.obj ((none, .int 0) :: pendingMembers.map fun m => (some m.1, m.2))) := by
    rw [htext]
    exact Json.spells_compact (by repeat' constructor)
  refine ⟨.write rfl <| .write rfl <| .write rfl <| .write rfl .nil, by simp, hspells, ?_⟩
  exact (tolerates DnsTask.codec (.record DnsTask.fields) _ _ hspells).2
    (.inr ⟨_, rfl, .nameless List.mem_cons_self⟩)

end FleetHealth
