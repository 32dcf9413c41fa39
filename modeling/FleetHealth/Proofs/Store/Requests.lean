import FleetHealth.Proofs.Store.Outbox
import FleetHealth.Store.Fleet
/-!
# Requests to a store

Whatever is asked of a store, one request after another, it only ever writes records under their own
keys. So it can always read what it holds: a row that cannot be decoded does not come about.

* `Store.Answer` — what a request does to a well-formed store; `Store.answer` says that it does just
  that.
* `Store.find?_afterAll` — a row stays as it is until a request writes it.
* `Store.reads_what_it_writes` — records are read back as they were written, by the codecs and through
  any requests.
-/

namespace FleetHealth

/-- What may be asked of a store. -/
inductive StoreRequest where
  | putCluster (c : Cluster)
  | getCluster (id : UInt64)
  | findEnabledCluster (id : UInt64)
  | listClusters
  | putNode (n : Node)
  | getNode (id : UInt64)
  | findEnabledNodes (clusterId : UInt64)
  | updateNodeHealth (id : UInt64) (change : Health → Health)
  | putAddress (a : Address)
  | getAddress (id : UInt64)
  | listAddresses (nodeId : UInt64)
  | findFirstAccessible (nodeId : UInt64) (role : Role)
  | updateAddressHealth (id : UInt64) (change : Health → Health)
  | setAddressBackup (id : UInt64) (backup : Option (UInt64 × String))
  | putThreshold (t : Threshold)
  | listThresholds (nodeId : UInt64)
  | createNotification (draft : NotificationDraft) (now : UInt64)
  | listNotifications
  | enqueueDnsTask (nodeId : UInt64) (taskType : DnsTaskType) (now : UInt64)
  | listDnsTasks
  | takeDnsTasks

/-- What a store replies. -/
inductive StoreReply where
  | done
  | changed (changed : Bool)
  | cluster (found : Option Cluster)
  | clusters (found : List Cluster)
  | node (found : Option Node)
  | nodes (found : List Node)
  | address (found : Option Address)
  | addresses (found : List Address)
  | thresholds (found : List Threshold)
  | notification (created : Notification)
  | notifications (found : List Notification)
  | dnsTask (queued : DnsTask)
  | dnsTasks (found : List DnsTask)

/-- The row that a request changes in place. -/
def StoreRequest.changes? : StoreRequest → Option (TableName × String)
  | .updateNodeHealth id _ => some (.nodes, idKey id)
  | .updateAddressHealth id _ => some (.addresses, idKey id)
  | .setAddressBackup id _ => some (.addresses, idKey id)
  | _ => none

/-- Whether a request may write a row. -/
def StoreRequest.MayWrite (name : TableName) (key : String) : StoreRequest → Prop
  | .putCluster c => name = .clusters ∧ key = idKey c.id
  | .putNode n => name = .nodes ∧ key = idKey n.id
  | .putAddress a => name = .addresses ∧ key = idKey a.id
  | .putThreshold t => name = .thresholds ∧ key = idKey t.id
  | .createNotification _ _ => name = .notifications
  | .enqueueDnsTask nodeId taskType _ => name = .dnsTasks ∧ key = dnsTaskKey nodeId taskType
  | .takeDnsTasks => name = .dnsTasks
  | r => r.changes? = some (name, key)

namespace Store

/-- The reply to a request and the store after it. -/
def handle (s : Store) : StoreRequest → Except StoreError (StoreReply × Store)
  | .putCluster c => .ok (.done, s.putCluster c)
  | .getCluster id => (s.getCluster id).map fun found => (.cluster found, s)
  | .findEnabledCluster id => (s.findEnabledCluster id).map fun found => (.cluster found, s)
  | .listClusters => s.listClusters.map fun found => (.clusters found, s)
  | .putNode n => .ok (.done, s.putNode n)
  | .getNode id => (s.getNode id).map fun found => (.node found, s)
  | .findEnabledNodes clusterId => (s.findEnabledNodes clusterId).map fun found => (.nodes found, s)
  | .updateNodeHealth id change =>
    (s.updateNodeHealth id fun h => (change h, ())).map fun (n, _, s') => (.node (some n), s')
  | .putAddress a => .ok (.done, s.putAddress a)
  | .getAddress id => (s.getAddress id).map fun found => (.address found, s)
  | .listAddresses nodeId => (s.listAddresses nodeId).map fun found => (.addresses found, s)
  | .findFirstAccessible nodeId role =>
    (s.findFirstAccessible nodeId role).map fun found => (.address found, s)
  | .updateAddressHealth id change =>
    (s.updateAddressHealth id fun h => (change h, ())).map fun (a, _, s') => (.address (some a), s')
  | .setAddressBackup id backup =>
    (s.setAddressBackup id backup).map fun (changed, s') => (.changed changed, s')
  | .putThreshold t => .ok (.done, s.putThreshold t)
  | .listThresholds nodeId => (s.listThresholds nodeId).map fun found => (.thresholds found, s)
  | .createNotification draft now =>
    let (n, s') := s.createNotification draft now
    .ok (.notification n, s')
  | .listNotifications => s.listNotifications.map fun found => (.notifications found, s)
  | .enqueueDnsTask nodeId taskType now =>
    (s.enqueueDnsTask nodeId taskType now).map fun (task, s') => (.dnsTask task, s')
  | .listDnsTasks => s.listDnsTasks.map fun found => (.dnsTasks found, s)
  | .takeDnsTasks => s.takeDnsTasks.map fun (found, s') => (.dnsTasks found, s')

/-- The store after a request. One that fails leaves it as it was. -/
def after (s : Store) (r : StoreRequest) : Store :=
  match s.handle r with
  | .ok (_, s') => s'
  | .error _ => s

theorem after_of_handle {s s' : Store} {r : StoreRequest} {reply : StoreReply}
    (h : s.handle r = .ok (reply, s')) : s.after r = s' := by
  unfold after
  rw [h]

theorem after_of_handle_eq_error {s : Store} {r : StoreRequest} {e : StoreError}
    (h : s.handle r = .error e) : s.after r = s := by
  unfold after
  rw [h]

/-- The store after one request after another. -/
def afterAll (s : Store) (rs : List StoreRequest) : Store :=
  rs.foldl after s

variable {s : Store} {α β : Type}

/-! ## One request -/

/-- What comes of a request to a well-formed store: a reply, with every row that the request may not
write left in place, or that there is no row to change. -/
inductive Answer (s : Store) (r : StoreRequest) : Except StoreError (StoreReply × Store) → Prop
  | reply {reply : StoreReply} {s' : Store} : s'.WellFormed →
    (∀ name key, ¬r.MayWrite name key → (s'.table name).find? key = (s.table name).find? key) →
    Answer s r (.ok (reply, s'))
  | missing {name : TableName} {key : String} : r.changes? = some (name, key) →
    (s.table name).find? key = none → Answer s r (.error (.notFound name key))

namespace Answer

variable {r : StoreRequest} {c : Collection α} {keyOf : α → String} [c.Lawful keyOf] {key : String}

/-- A request that reads, and reads something. -/
theorem of_read (hs : s.WellFormed) {x : Except StoreError α} (hx : ∃ a, x = .ok a)
    (f : α → StoreReply) : Answer s r (x.map fun a => (f a, s)) := by
  obtain ⟨a, rfl⟩ := hx
  exact .reply hs fun _ _ _ => rfl

/-- A request that writes one record. -/
theorem of_put (hs : s.WellFormed) (c : Collection α) [c.Lawful keyOf] {a : α} (hkey : key = keyOf a)
    (hwrite : ∀ name k, name = c.table ∧ k = key → r.MayWrite name k) (reply : StoreReply) :
    Answer s r (.ok (reply, s.put c key a)) := by
  refine .reply (hs.put c hkey) ?_
  intro name k hname
  by_cases htable : name = c.table
  · subst htable
    have hk : k ≠ key := fun he => hname (hwrite _ _ ⟨rfl, he⟩)
    rw [table_put, Table.find?_put_ne _ _ hk]
  · rw [table_put_ne a htable]

/-- A request that changes one record, and not its key. -/
theorem of_update (hs : s.WellFormed) (c : Collection α) [c.Lawful keyOf] {change : α → α × β}
    (hchange : ∀ a, keyOf (change a).1 = keyOf a) (hrow : r.changes? = some (c.table, key))
    (hwrite : ∀ name k, name = c.table ∧ k = key → r.MayWrite name k) (f : α → β → StoreReply) :
    Answer s r ((s.update c key change).map fun (a, b, s') => (f a b, s')) := by
  cases ha : s.record? c key with
  | none =>
    have hfind := hs.find?_of_record?_eq_none c ha
    have hnone : (s.table c.table).find? key = none := by
      unfold find? at hfind
      split at hfind
      · rename_i value _
        cases hdecode : decodeRow c value <;> rw [hdecode] at hfind <;> cases hfind
      · assumption
    unfold update
    rw [hfind]
    exact .missing hrow hnone
  | some a =>
    rw [update_of_record? ha]
    refine of_put hs c ?_ hwrite _
    rw [hchange, ← hs.keyed.key_eq ha]

end Answer

/-- Reading a row of a well-formed store succeeds, whether there is one or not. -/
theorem WellFormed.find?_eq_ok (hs : s.WellFormed) (c : Collection α) {keyOf : α → String}
    [c.Lawful keyOf] (key : String) : ∃ found, s.find? c key = .ok found := by
  cases ha : s.record? c key with
  | none => exact ⟨none, hs.find?_of_record?_eq_none c ha⟩
  | some a => exact ⟨some a, find?_of_record? ha⟩

theorem WellFormed.scan_eq_ok (hs : s.WellFormed) (c : Collection α) {keyOf : α → String}
    [c.Lawful keyOf] (keep : α → Bool) : ∃ found, s.scan c keep = .ok found :=
  ⟨_, scan_of_decodes (hs.decodes c) keep⟩

theorem map_map {γ ε : Type} (x : Except ε α) (f : α → β) (g : β → γ) :
    (x.map f).map g = x.map fun a => g (f a) := by
  cases x <;> rfl

theorem map_eq_ok {ε : Type} {x : Except ε α} (h : ∃ a, x = .ok a) (f : α → β) :
    ∃ b, x.map f = .ok b := by
  obtain ⟨a, rfl⟩ := h
  exact ⟨f a, rfl⟩

/-- **A well-formed store answers every request.** -/
theorem answer (hs : s.WellFormed) (r : StoreRequest) : Answer s r (s.handle r) := by
  cases r with
  | putCluster c =>
    refine .of_put hs .clusters rfl ?_ _
    exact fun _ _ h => h
  | putNode n =>
    refine .of_put hs .nodes rfl ?_ _
    exact fun _ _ h => h
  | putAddress a =>
    refine .of_put hs .addresses rfl ?_ _
    exact fun _ _ h => h
  | putThreshold t =>
    refine .of_put hs .thresholds rfl ?_ _
    exact fun _ _ h => h
  | createNotification draft now =>
    refine .of_put hs .notifications rfl ?_ _
    exact fun _ _ h => h.1
  | enqueueDnsTask nodeId taskType now =>
    obtain ⟨⟨task, s'⟩, hqueued⟩ := enqueueDnsTask_of_wellFormed hs nodeId taskType now
    obtain ⟨rfl, rfl, rfl⟩ := enqueueDnsTask_eq_ok hqueued
    show Answer s _ ((s.enqueueDnsTask task.nodeId task.taskType now).map _)
    rw [hqueued]
    refine .of_put hs .dnsTasks rfl ?_ _
    exact fun _ _ h => h
  | updateNodeHealth id change =>
    refine .of_update hs .nodes (fun _ => rfl) rfl ?_ fun n _ => .node (some n)
    rintro name k ⟨rfl, rfl⟩
    rfl
  | updateAddressHealth id change =>
    refine .of_update hs .addresses (fun _ => rfl) rfl ?_ fun a _ => .address (some a)
    rintro name k ⟨rfl, rfl⟩
    rfl
  | setAddressBackup id backup =>
    show Answer s _ (((s.update .addresses (idKey id) _).map _).map _)
    rw [map_map]
    refine .of_update hs .addresses (fun _ => rfl) rfl ?_ fun _ changed => .changed changed
    rintro name k ⟨rfl, rfl⟩
    rfl
  | takeDnsTasks =>
    show Answer s _ (s.takeDnsTasks.map _)
    rw [takeDnsTasks_of_wellFormed hs]
    refine .reply hs.withoutDnsTasks ?_
    intro name key hname
    cases name <;> first | rfl | exact absurd rfl hname
  | getCluster id => exact .of_read hs (hs.find?_eq_ok .clusters _) _
  | getNode id => exact .of_read hs (hs.find?_eq_ok .nodes _) _
  | getAddress id => exact .of_read hs (hs.find?_eq_ok .addresses _) _
  | findEnabledCluster id => exact .of_read hs (map_eq_ok (hs.find?_eq_ok .clusters _) _) _
  | findFirstAccessible nodeId role => exact .of_read hs (map_eq_ok (hs.scan_eq_ok .addresses _) _) _
  | listClusters => exact .of_read hs (hs.scan_eq_ok .clusters _) _
  | findEnabledNodes clusterId => exact .of_read hs (hs.scan_eq_ok .nodes _) _
  | listAddresses nodeId => exact .of_read hs (hs.scan_eq_ok .addresses _) _
  | listThresholds nodeId => exact .of_read hs (hs.scan_eq_ok .thresholds _) _
  | listNotifications => exact .of_read hs (hs.scan_eq_ok .notifications _) _
  | listDnsTasks => exact .of_read hs (hs.scan_eq_ok .dnsTasks _) _

/-! ## One request after another -/

variable {c : Collection α} {keyOf : α → String} [c.Lawful keyOf] {key : String}

theorem wellFormed_after (hs : s.WellFormed) (r : StoreRequest) : (s.after r).WellFormed := by
  have hr := answer hs r
  unfold after
  generalize s.handle r = answered at hr ⊢
  cases hr with
  | reply hs' _ => exact hs'
  | missing _ _ => exact hs

theorem find?_after (hs : s.WellFormed) {r : StoreRequest} {name : TableName} {key : String}
    (hr : ¬r.MayWrite name key) : ((s.after r).table name).find? key = (s.table name).find? key := by
  have hanswer := answer hs r
  unfold after
  generalize s.handle r = answered at hanswer ⊢
  cases hanswer with
  | reply _ hframe => exact hframe name key hr
  | missing _ _ => rfl

/-- **Requests keep a store well-formed.** -/
theorem wellFormed_afterAll (hs : s.WellFormed) (rs : List StoreRequest) : (s.afterAll rs).WellFormed := by
  induction rs generalizing s with
  | nil => exact hs
  | cons r rs ih => exact ih (wellFormed_after hs r)

/-- A row stays as it is through requests that do not write it. -/
theorem find?_afterAll (hs : s.WellFormed) {rs : List StoreRequest} {name : TableName} {key : String}
    (hrs : ∀ r ∈ rs, ¬r.MayWrite name key) :
    ((s.afterAll rs).table name).find? key = (s.table name).find? key := by
  induction rs generalizing s with
  | nil => rfl
  | cons r rs ih =>
    have hrest := ih (wellFormed_after hs r) fun r' hr' => hrs r' (List.mem_cons_of_mem _ hr')
    exact hrest.trans (find?_after hs (hrs r List.mem_cons_self))

/-- A record that was put is found, whatever else was asked for since. -/
theorem find?_afterAll_put (hs : s.WellFormed) (c : Collection α) [c.Lawful keyOf] {a : α}
    (hkey : key = keyOf a) {rs : List StoreRequest} (hrs : ∀ r ∈ rs, ¬r.MayWrite c.table key) :
    ((s.put c key a).afterAll rs).find? c key = .ok (some a) := by
  apply find?_of_record?
  rw [record?, find?_afterAll (hs.put c hkey) hrs]
  exact record?_put_self a

end Store

/-- Whether a codec reads every value from the text that it writes for it. -/
def Codec.ReadsBack {α : Type} (c : Codec α) : Prop :=
  ∀ a, c.read (c.write a) = some a

/-- What a store is relied on for, whatever requests were made to it before. -/
structure Store.Reliable (s : Store) : Prop where
  /-- No request meets a row that cannot be decoded. -/
  decodes : ∀ r, s.handle r ≠ .error .undecodable
  /-- The only failure is to change a row that there is not. -/
  fails : ∀ r e, s.handle r = .error e →
    ∃ name key, r.changes? = some (name, key) ∧ e = .notFound name key
      ∧ (s.table name).find? key = none
  /-- A cluster is found as it was put, whatever was asked for since, unless that wrote it again. -/
  cluster : ∀ (c : Cluster) (rs : List StoreRequest),
    (∀ r ∈ rs, ¬r.MayWrite .clusters (idKey c.id)) →
    (s.afterAll (.putCluster c :: rs)).getCluster c.id = .ok (some c)
  /-- So is a node. -/
  node : ∀ (n : Node) (rs : List StoreRequest),
    (∀ r ∈ rs, ¬r.MayWrite .nodes (idKey n.id)) →
    (s.afterAll (.putNode n :: rs)).getNode n.id = .ok (some n)
  /-- So is an address. -/
  address : ∀ (a : Address) (rs : List StoreRequest),
    (∀ r ∈ rs, ¬r.MayWrite .addresses (idKey a.id)) →
    (s.afterAll (.putAddress a :: rs)).getAddress a.id = .ok (some a)

namespace Store

variable {s : Store}

theorem WellFormed.reliable (hs : s.WellFormed) : s.Reliable where
  decodes r := by
    have hr := answer hs r
    intro h
    rw [h] at hr
    cases hr
  fails r e h := by
    have hr := answer hs r
    rw [h] at hr
    cases hr with
    | missing hrow hnone => exact ⟨_, _, hrow, rfl, hnone⟩
  cluster _ _ hrs := find?_afterAll_put hs .clusters rfl hrs
  node _ _ hrs := find?_afterAll_put hs .nodes rfl hrs
  address _ _ hrs := find?_afterAll_put hs .addresses rfl hrs

/-- **What is written is read.** Every codec reads back what it writes, and a store that was empty can
be relied on after any requests. -/
theorem reads_what_it_writes :
    (Cluster.codec.ReadsBack ∧ Policy.codec.ReadsBack ∧ Node.codec.ReadsBack ∧ Address.codec.ReadsBack
      ∧ Threshold.codec.ReadsBack ∧ Notification.codec.ReadsBack ∧ DnsTask.codec.ReadsBack
      ∧ Health.codec.ReadsBack ∧ TrackingMode.codec.ReadsBack ∧ Role.codec.ReadsBack)
    ∧ ∀ rs : List StoreRequest, (({} : Store).afterAll rs).Reliable := by
  refine ⟨⟨?_, ?_, ?_, ?_, ?_, ?_, ?_, ?_, ?_, ?_⟩, ?_⟩
  rotate_right
  · intro rs
    exact (wellFormed_afterAll wellFormed_empty rs).reliable
  all_goals exact Codec.read_write _

end Store

end FleetHealth
