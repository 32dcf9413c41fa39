import FleetHealth.Proofs.Store.WellFormed
import FleetHealth.Store.Outbox
/-!
# Notifications and DNS tasks are kept

A notification goes behind all that there are, as long as its number is not the last of all. A DNS task
takes no other task away.

* `Store.records_createNotification` — notifications are appended.
* `Store.enqueueDnsTask_eq_ok`, `Store.AwaitsDns.put` — tasks are added.
-/

namespace FleetHealth.Store

variable {s s' : Store}

/-! ## Notifications -/

/-- Whether no notification has the last of all numbers, after which there is no next. -/
def HasRoom (s : Store) : Prop :=
  ∀ n ∈ s.records .notifications, n.id < 18446744073709551615

theorem records_notifications_congr (h : s'.notifications = s.notifications) :
    s'.records .notifications = s.records .notifications :=
  records_congr h

theorem HasRoom.congr (hroom : s.HasRoom) (h : s'.notifications = s.notifications) : s'.HasRoom := by
  rw [HasRoom, records_notifications_congr h]
  exact hroom

theorem records_notifications_of_rows_eq_nil (h : s.notifications.rows = []) :
    s.records .notifications = [] := by
  have hrows : (s.table Collection.notifications.table).rows = [] := h
  rw [records, hrows]
  rfl

theorem hasRoom_of_rows_eq_nil (h : s.notifications.rows = []) : s.HasRoom := by
  rw [HasRoom, records_notifications_of_rows_eq_nil h]
  intro n hn
  exact absurd hn List.not_mem_nil

/-- The next number is one more than that of the notification with the greatest key. -/
theorem nextNotificationId_cases (hs : s.WellFormed) :
    s.notifications.rows = []
      ∨ ∃ n, s.record? .notifications (idKey n.id) = some n ∧ s.nextNotificationId = n.id + 1
        ∧ ∀ row ∈ s.notifications.rows, row.1 = idKey n.id ∨ row.1 < idKey n.id := by
  rcases List.eq_nil_or_concat s.notifications.rows with hrows | ⟨before, ⟨key, value⟩, hrows⟩
  · exact .inl hrows
  · rw [List.concat_eq_append] at hrows
    have hlast : (key, value) ∈ s.notifications.rows := by rw [hrows]; simp
    obtain ⟨n, hn, hkey⟩ := Option.map_eq_some_iff.mp (hs .notifications (key, value) hlast)
    obtain rfl : idKey n.id = key := hkey
    refine .inr ⟨n, record?_eq_some_iff.mpr ⟨value, hlast, hn⟩, ?_, fun row hrow => ?_⟩
    · -- the key of the last row is read back as its number
      rw [nextNotificationId, Table.lastKey?, hrows, List.getLast?_concat, Option.map_some]
      simp only [numberOfKey_idKey]
    · have hsorted := s.notifications.sorted
      rw [hrows] at hsorted hrow
      rcases List.mem_append.mp hrow with hrow | hrow
      · exact .inr ((List.pairwise_append.mp hsorted).2.2 row hrow (idKey n.id, value) (by simp))
      · exact .inl (congrArg Prod.fst (List.mem_singleton.mp hrow))

/-- Numbers go up as long as there is room. -/
theorem id_lt_succ {id : UInt64} (h : id < 18446744073709551615) : id < id + 1 := by
  rw [UInt64.lt_iff_toNat_lt] at h ⊢
  rw [UInt64.toNat_add]
  simp at h ⊢
  omega

/-- The numbers of all notifications are less than the next one. -/
theorem lt_nextNotificationId (hs : s.WellFormed) (hroom : s.HasRoom) :
    ∀ row ∈ s.notifications.rows, row.1 < idKey s.nextNotificationId := by
  rcases nextNotificationId_cases hs with hrows | ⟨n, hn, hnext, hle⟩
  · intro row hrow
    rw [hrows] at hrow
    cases hrow
  · intro row hrow
    have hlt : idKey n.id < idKey (n.id + 1) :=
      idKey_lt_idKey (id_lt_succ (hroom n (mem_records.mpr ⟨_, hn⟩)))
    rw [hnext]
    rcases hle row hrow with heq | hbefore
    · exact heq ▸ hlt
    · exact String.lt_trans hbefore hlt

theorem createNotification_congr (h : s'.notifications = s.notifications) (draft : NotificationDraft)
    (now : UInt64) :
    (s'.createNotification draft now).2.notifications
      = (s.createNotification draft now).2.notifications := by
  have hnotifications (u : Store) : (u.createNotification draft now).2.notifications
      = u.notifications.put (idKey u.nextNotificationId)
          (Notification.codec.write (numberDraft draft u.nextNotificationId now)) := rfl
  rw [hnotifications, hnotifications, nextNotificationId, nextNotificationId, h]

theorem wellFormed_createNotification (hs : s.WellFormed) (draft : NotificationDraft) (now : UInt64) :
    (s.createNotification draft now).2.WellFormed :=
  hs.put .notifications rfl

/-- A notification is appended to those that there are. -/
theorem records_createNotification (hs : s.WellFormed) (hroom : s.HasRoom) (draft : NotificationDraft)
    (now : UInt64) :
    (s.createNotification draft now).2.records .notifications
      = s.records .notifications ++ [numberDraft draft s.nextNotificationId now] :=
  records_put_of_forall_lt (c := .notifications) (lt_nextNotificationId hs hroom) _

theorem nextNotificationId_congr (h : s'.notifications = s.notifications) :
    s'.nextNotificationId = s.nextNotificationId := by
  rw [nextNotificationId, nextNotificationId, h]

/-- Numbers are given away one after the other. -/
theorem nextNotificationId_createNotification (hs : s.WellFormed) (hroom : s.HasRoom)
    (draft : NotificationDraft) (now : UInt64) :
    (s.createNotification draft now).2.nextNotificationId = s.nextNotificationId + 1 := by
  have hrows : (s.createNotification draft now).2.notifications.rows = s.notifications.rows ++ [_] :=
    insertRow_of_forall_lt (lt_nextNotificationId hs hroom)
  rw [nextNotificationId, Table.lastKey?, hrows, List.getLast?_concat, Option.map_some]
  simp only [numberOfKey_idKey, numberDraft]

/-- Once the last number is given away there is no room again. -/
theorem hasRoom_of_createNotification (hs : s.WellFormed) {draft : NotificationDraft} {now : UInt64}
    (hroom : (s.createNotification draft now).2.HasRoom) : s.HasRoom := by
  intro n hn
  have hrecord := (hs.keyed.mem_records_iff (c := .notifications)).mp hn
  by_cases hnext : s.nextNotificationId = n.id
  · -- the next number is given away already only if it starts again from zero
    apply Classical.byContradiction
    intro hfull
    obtain ⟨value, hrow, -⟩ := record?_eq_some_iff.mp hrecord
    rcases nextNotificationId_cases hs with hrows | ⟨last, -, hlast, hle⟩
    · exact absurd (hrows ▸ hrow : (idKey n.id, value) ∈ []) List.not_mem_nil
    · have hlt : last.id < n.id := by
        have hbound := last.id.toNat_lt
        rw [UInt64.lt_iff_toNat_lt] at hfull ⊢
        rw [← hnext, hlast, UInt64.toNat_add] at hfull ⊢
        simp at hbound hfull ⊢
        omega
      rcases hle _ hrow with heq | hbefore
      · exact absurd (idKey_injective heq) (UInt64.ne_of_lt hlt).symm
      · exact String.lt_irrefl _ (String.lt_trans hbefore (idKey_lt_idKey hlt))
  · have hkept : (s.createNotification draft now).2.record? .notifications (idKey n.id) = some n :=
      (record?_put_ne _ fun he => hnext (idKey_injective he).symm).trans hrecord
    exact hroom n (mem_records.mpr ⟨_, hkept⟩)

/-! ## DNS tasks -/

/-- Whether a node waits to be published again. -/
def AwaitsDns (s : Store) (nodeId : UInt64) : Prop :=
  (s.record? .dnsTasks (dnsTaskKey nodeId .nodeChange)).isSome

theorem AwaitsDns.congr {nodeId : UInt64} (h : s.AwaitsDns nodeId) (htasks : s'.dnsTasks = s.dnsTasks) :
    s'.AwaitsDns nodeId := by
  rw [AwaitsDns, record?_congr (c := .dnsTasks) htasks]
  exact h

/-- Writing a task takes no other away. -/
theorem AwaitsDns.put {nodeId : UInt64} {key : String} (h : s.AwaitsDns nodeId) (task : DnsTask) :
    (s.put .dnsTasks key task).AwaitsDns nodeId := by
  by_cases hkey : dnsTaskKey nodeId .nodeChange = key
  · rw [AwaitsDns, hkey, record?_put_self]
    rfl
  · rw [AwaitsDns, record?_put_ne _ hkey]
    exact h

/-- The task that is asked for keeps the time of the first request if it waits already. -/
theorem enqueueDnsTask_eq (hs : s.WellFormed) (nodeId : UInt64) (taskType : DnsTaskType)
    (now : UInt64) :
    s.enqueueDnsTask nodeId taskType now
      = let waiting := s.record? .dnsTasks (dnsTaskKey nodeId taskType)
        let task := { nodeId, taskType, createdAt := (waiting.map (·.createdAt)).getD now,
                      updatedAt := now }
        .ok (task, s.put .dnsTasks (dnsTaskKey nodeId taskType) task) := by
  rw [enqueueDnsTask]
  cases htask : s.record? .dnsTasks (dnsTaskKey nodeId taskType) with
  | none =>
    rw [hs.find?_of_record?_eq_none .dnsTasks htask]
    rfl
  | some task =>
    rw [find?_of_record? htask]
    rfl

theorem enqueueDnsTask_of_wellFormed (hs : s.WellFormed) (nodeId : UInt64) (taskType : DnsTaskType)
    (now : UInt64) : ∃ result, s.enqueueDnsTask nodeId taskType now = .ok result :=
  ⟨_, enqueueDnsTask_eq hs nodeId taskType now⟩

theorem enqueueDnsTask_eq_ok {nodeId : UInt64} {taskType : DnsTaskType} {now : UInt64} {task : DnsTask}
    (h : s.enqueueDnsTask nodeId taskType now = .ok (task, s')) :
    task.nodeId = nodeId ∧ task.taskType = taskType
      ∧ s' = s.put .dnsTasks (dnsTaskKey nodeId taskType) task := by
  rw [enqueueDnsTask] at h
  cases hfind : s.find? .dnsTasks (dnsTaskKey nodeId taskType) with
  | error e => rw [hfind] at h; cases h
  | ok waiting =>
    rw [hfind] at h
    cases h
    exact ⟨rfl, rfl, rfl⟩

theorem takeDnsTasks_of_wellFormed (hs : s.WellFormed) :
    s.takeDnsTasks = .ok (s.records .dnsTasks, { s with dnsTasks := .empty }) := by
  simp [takeDnsTasks, listDnsTasks, scan_of_decodes (hs.decodes .dnsTasks), bind, Except.bind, pure,
    Except.pure]

/-- Taking the tasks empties their table and touches no other. -/
theorem WellFormed.withoutDnsTasks (hs : s.WellFormed) :
    ({ s with dnsTasks := .empty } : Store).WellFormed := by
  intro name row hrow
  by_cases hname : name = .dnsTasks
  · subst hname
    cases hrow
  · apply hs name row
    cases name <;> first | exact hrow | exact absurd rfl hname

end FleetHealth.Store
