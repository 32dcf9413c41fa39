import FleetHealth.Proofs.Store.Requests
import FleetHealth.Proofs.Store.Transactions
import Mathlib.Data.List.Induction
import Mathlib.Logic.Function.Basic
/-!
# What was written is what there is

Behind the rows of a store, with their keys and their texts, there is a dictionary: a record for each
number that one was written under. A request writes to it without a look at any row. What a store holds
and lists after any requests is what the dictionary says, in the order of the numbers.

* `Contents.ofLog` — the dictionary after a log of requests.
* `Store.matches_afterAll` — the store after them, by induction over the log.
* `Store.reflects_afterAll` — what the store lists then.
-/

namespace FleetHealth

/-! ## Records by what identifies them -/

namespace TableName

/-- The records of a table. -/
@[reducible] def Record : TableName → Type
  | clusters => Cluster
  | nodes => Node
  | addresses => Address
  | notifications => Notification
  | dnsTasks => DnsTask
  | thresholds => Threshold

/-- What tells the records of a table apart. -/
@[reducible] def Id : TableName → Type
  | clusters => UInt64
  | nodes => UInt64
  | addresses => UInt64
  | notifications => UInt64
  | dnsTasks => UInt64 × DnsTaskType
  | thresholds => UInt64

/-- The collection of a table. -/
def collection : (name : TableName) → Collection name.Record
  | clusters => .clusters
  | nodes => .nodes
  | addresses => .addresses
  | notifications => .notifications
  | dnsTasks => .dnsTasks
  | thresholds => .thresholds

/-- What tells a record apart from the others of its table. -/
def idOf : (name : TableName) → name.Record → name.Id
  | clusters => Cluster.id
  | nodes => Node.id
  | addresses => Address.id
  | notifications => Notification.id
  | dnsTasks => fun t => (t.nodeId, t.taskType)
  | thresholds => Threshold.id

/-- The number by which a record is listed: its own, or that of the node to publish. -/
def number : (name : TableName) → name.Record → UInt64
  | clusters => Cluster.id
  | nodes => Node.id
  | addresses => Address.id
  | notifications => Notification.id
  | dnsTasks => DnsTask.nodeId
  | thresholds => Threshold.id

/-- The key under which a record stands. -/
def key : (name : TableName) → name.Id → String
  | clusters => idKey
  | nodes => idKey
  | addresses => idKey
  | notifications => idKey
  | dnsTasks => fun id => dnsTaskKey id.1 id.2
  | thresholds => idKey

instance : (name : TableName) → DecidableEq name.Id
  | clusters => inferInstanceAs (DecidableEq UInt64)
  | nodes => inferInstanceAs (DecidableEq UInt64)
  | addresses => inferInstanceAs (DecidableEq UInt64)
  | notifications => inferInstanceAs (DecidableEq UInt64)
  | dnsTasks => inferInstanceAs (DecidableEq (UInt64 × DnsTaskType))
  | thresholds => inferInstanceAs (DecidableEq UInt64)

instance : (name : TableName) → name.collection.Lawful fun a => name.key (name.idOf a)
  | clusters => inferInstanceAs (Collection.clusters.Lawful fun c => idKey c.id)
  | nodes => inferInstanceAs (Collection.nodes.Lawful fun n => idKey n.id)
  | addresses => inferInstanceAs (Collection.addresses.Lawful fun a => idKey a.id)
  | notifications => inferInstanceAs (Collection.notifications.Lawful fun n => idKey n.id)
  | dnsTasks => inferInstanceAs (Collection.dnsTasks.Lawful fun t => dnsTaskKey t.nodeId t.taskType)
  | thresholds => inferInstanceAs (Collection.thresholds.Lawful fun t => idKey t.id)

variable {name : TableName}

@[simp] theorem table_collection (name : TableName) : name.collection.table = name := by
  cases name <;> rfl

theorem key_injective {id other : name.Id} (h : name.key id = name.key other) : id = other := by
  cases name with
  | dnsTasks =>
    obtain ⟨nodeId, taskType⟩ := id
    obtain ⟨nodeId', taskType'⟩ := other
    -- there is only one type
    cases taskType
    cases taskType'
    exact congrArg (·, DnsTaskType.nodeChange) (Store.dnsTaskKey_injective h)
  | _ => exact Store.idKey_injective h

/-- Records whose keys ascend are in the order of their numbers. -/
theorem number_lt {a b : name.Record} (h : name.key (name.idOf a) < name.key (name.idOf b)) :
    name.number a < name.number b := by
  cases name with
  | dnsTasks =>
    obtain ⟨nodeId, taskType, _, _⟩ := a
    obtain ⟨nodeId', taskType', _, _⟩ := b
    cases taskType
    cases taskType'
    exact Store.lt_of_dnsTaskKey_lt h
  | _ => exact Store.lt_of_idKey_lt h

end TableName

/-! ## The dictionary -/

/-- What was written to a store: the record under each number, and the greatest number of a
notification. -/
structure Contents where
  records : (name : TableName) → name.Id → Option name.Record
  lastNotification : Option UInt64

/-- The notification that is stored for a draft, under a number, when it was asked for at a time. -/
def NotificationDraft.stored (draft : NotificationDraft) (id now : UInt64) : Notification :=
  { id
    role := draft.role
    clusterId := draft.clusterId
    nodeId := draft.nodeId
    messageType := draft.messageType
    level := draft.level
    subject := draft.subject
    body := draft.body
    createdAt := now }

/-- A notification that was asked for, and when. -/
def StoreRequest.creation? : StoreRequest → Option (NotificationDraft × UInt64)
  | .createNotification draft now => some (draft, now)
  | _ => none

namespace Contents

/-- Nothing was written. -/
def empty : Contents :=
  ⟨fun _ _ => none, none⟩

/-- A record is written. -/
def put (k : Contents) (name : TableName) (a : name.Record) : Contents :=
  { k with records := Function.update k.records name fun id =>
      if id = name.idOf a then some a else k.records name id }

/-- A record is written anew, if there is one. -/
def amend (k : Contents) (name : TableName) (id : name.Id) (change : name.Record → name.Record) :
    Contents :=
  { k with records := Function.update k.records name fun other =>
      if other = id then (k.records name id).map change else k.records name other }

/-- No record of a table is left. -/
def clear (k : Contents) (name : TableName) : Contents :=
  { k with records := Function.update k.records name fun _ => none }

/-- The number of the next notification. -/
def nextNotification (k : Contents) : UInt64 :=
  match k.lastNotification with
  | some last => last + 1
  | none => 1

/-- A notification is written under the next number. -/
def notify (k : Contents) (draft : NotificationDraft) (now : UInt64) : Contents :=
  { k.put .notifications (draft.stored k.nextNotification now) with
    lastNotification := match k.lastNotification with
      | some last => some (if last < k.nextNotification then k.nextNotification else last)
      | none => some k.nextNotification }

/-- What a request writes. -/
def after (k : Contents) : StoreRequest → Contents
  | .putCluster c => k.put .clusters c
  | .putNode n => k.put .nodes n
  | .updateNodeHealth id change => k.amend .nodes id fun n => { n with health := change n.health }
  | .putAddress a => k.put .addresses a
  | .updateAddressHealth id change =>
    k.amend .addresses id fun a => { a with health := change a.health }
  | .setAddressBackup id backup => k.amend .addresses id fun a => a.withBackup backup
  | .putThreshold t => k.put .thresholds t
  | .createNotification draft now => k.notify draft now
  | .enqueueDnsTask nodeId taskType now =>
    let waiting := k.records .dnsTasks (nodeId, taskType)
    k.put .dnsTasks { nodeId, taskType, createdAt := (waiting.map DnsTask.createdAt).getD now,
                      updatedAt := now }
  | .takeDnsTasks => k.clear .dnsTasks
  | .getCluster _ | .findEnabledCluster _ | .listClusters | .getNode _ | .findEnabledNodes _
  | .getAddress _ | .listAddresses _ | .findFirstAccessible _ _ | .listThresholds _
  | .listNotifications | .listDnsTasks => k

/-- What was written by one request after another. -/
def ofLog (log : List StoreRequest) : Contents :=
  log.foldl after empty

/-- Whether a list has the records of a table that were written last and are of a kind, and no others, in
the order of their numbers. -/
structure Lists (k : Contents) (name : TableName) (keep : name.Record → Prop)
    (l : List name.Record) : Prop where
  ascending : l.Pairwise fun a b => name.number a < name.number b
  mem_iff : ∀ id a, a ∈ l ∧ name.idOf a = id ↔ k.records name id = some a ∧ keep a

/-! ## Notifications in a row -/

/-- The notifications that were asked for, in their order. -/
def creations (log : List StoreRequest) : List (NotificationDraft × UInt64) :=
  log.filterMap StoreRequest.creation?

/-- Notifications with the numbers from one on. -/
def numbered (created : List (NotificationDraft × UInt64)) : List Notification :=
  created.mapIdx fun i c => c.1.stored (UInt64.ofNat (i + 1)) c.2

variable {created : List (NotificationDraft × UInt64)} {log : List StoreRequest} {k : Contents}

theorem ofLog_concat (log : List StoreRequest) (r : StoreRequest) :
    ofLog (log ++ [r]) = (ofLog log).after r := by
  simp [ofLog]

theorem ofNat_lt_ofNat {m n : Nat} (hn : n < 2 ^ 64) (h : m < n) : UInt64.ofNat m < UInt64.ofNat n := by
  have hm : m < 2 ^ 64 := Nat.lt_trans h hn
  rw [UInt64.lt_iff_toNat_lt, UInt64.toNat_ofNat_of_lt' hm, UInt64.toNat_ofNat_of_lt' hn]
  exact h

theorem pairwise_numbered (hcreated : created.length < 2 ^ 64) :
    (numbered created).Pairwise fun a b => a.id < b.id := by
  rw [List.pairwise_iff_getElem]
  intro i j hi hj hij
  simp only [numbered, List.length_mapIdx, List.getElem_mapIdx] at hj ⊢
  exact ofNat_lt_ofNat (by omega) (by omega)

theorem numbered_concat (draft : NotificationDraft) (now : UInt64) :
    numbered (created ++ [(draft, now)])
      = numbered created ++ [draft.stored (UInt64.ofNat (created.length + 1)) now] :=
  List.mapIdx_concat

theorem id_lt_of_mem_numbered (hcreated : created.length + 1 < 2 ^ 64) {a : Notification}
    (ha : a ∈ numbered created) : a.id < UInt64.ofNat (created.length + 1) := by
  obtain ⟨i, hi, rfl⟩ := List.mem_mapIdx.mp ha
  exact ofNat_lt_ofNat hcreated (by omega)

/-- A request that creates no notification writes none. -/
theorem after_of_not_creates {r : StoreRequest} (hr : r.creation? = none) (k : Contents) :
    (k.after r).records .notifications = k.records .notifications
      ∧ (k.after r).lastNotification = k.lastNotification := by
  cases r with
  | createNotification draft now => cases hr
  | _ => exact ⟨rfl, rfl⟩

/-- Whether notifications are those that were created, numbered in a row. -/
structure Counts (k : Contents) (created : List (NotificationDraft × UInt64)) : Prop where
  next : k.nextNotification = UInt64.ofNat (created.length + 1)
  last : ∀ last ∈ k.lastNotification, last = UInt64.ofNat created.length
  mem_iff : ∀ id a, k.records .notifications id = some a ↔ a ∈ numbered created ∧ a.id = id

theorem Counts.notify (hk : k.Counts created) (hcreated : created.length + 1 < 2 ^ 64)
    (draft : NotificationDraft) (now : UInt64) :
    (k.notify draft now).Counts (created ++ [(draft, now)]) := by
  have hlast : (k.notify draft now).lastNotification = some (UInt64.ofNat (created.length + 1)) := by
    simp only [Contents.notify, hk.next]
    cases hprevious : k.lastNotification with
    | none => rfl
    | some last =>
      have hlt : last < UInt64.ofNat (created.length + 1) := by
        rw [hk.last last hprevious]
        exact ofNat_lt_ofNat hcreated (by omega)
      simp only [if_pos hlt]
  refine ⟨?_, ?_, ?_⟩
  · rw [nextNotification, hlast, List.length_append]
    simp
  · intro last h
    rw [hlast] at h
    rw [← Option.some.inj h, List.length_append]
    rfl
  · intro id a
    have hrecord : (k.notify draft now).records .notifications id
        = if id = UInt64.ofNat (created.length + 1) then
            some (draft.stored (UInt64.ofNat (created.length + 1)) now)
          else k.records .notifications id := by
      rw [← hk.next]
      rfl
    rw [hrecord, numbered_concat, List.mem_append, List.mem_singleton]
    by_cases hid : id = UInt64.ofNat (created.length + 1)
    · rw [if_pos hid, Option.some_inj]
      constructor
      · rintro rfl
        exact ⟨.inr rfl, hid.symm⟩
      · rintro ⟨hold | rfl, ha⟩
        · -- the numbers before are all less
          have hlt := id_lt_of_mem_numbered hcreated hold
          rw [ha, hid] at hlt
          exact absurd hlt (UInt64.lt_irrefl _)
        · rfl
    · rw [if_neg hid, hk.mem_iff]
      constructor
      · rintro ⟨hold, ha⟩
        exact ⟨.inl hold, ha⟩
      · rintro ⟨hold | rfl, ha⟩
        · exact ⟨hold, ha⟩
        · exact absurd ha.symm hid

/-- **Notifications are numbered in a row**, as long as the numbers last. -/
theorem counts_ofLog (log : List StoreRequest) (hlog : (creations log).length < 2 ^ 64) :
    (ofLog log).Counts (creations log) := by
  induction log using List.reverseRecOn with
  | nil =>
    refine ⟨rfl, nofun, ?_⟩
    intro id a
    simp [ofLog, empty, creations, numbered]
  | append_singleton log r ih =>
    rw [ofLog_concat]
    have hcreations : creations (log ++ [r]) = creations log ++ r.creation?.toList := by
      simp only [creations, List.filterMap_append]
      cases h : r.creation? <;> simp [h]
    rw [hcreations] at hlog ⊢
    cases hr : r.creation? with
    | none =>
      rw [hr] at hlog
      have hk := ih (by simpa using hlog)
      obtain ⟨hrecords, hlast⟩ := after_of_not_creates hr (ofLog log)
      rw [Option.toList_none, List.append_nil]
      refine ⟨?_, hlast ▸ hk.last, ?_⟩
      · rw [nextNotification, hlast]
        exact hk.next
      · rw [hrecords]
        exact hk.mem_iff
    | some creation =>
      rw [hr] at hlog
      simp only [Option.toList_some, List.length_append, List.length_singleton] at hlog
      have hk := ih (by omega)
      cases r with
      | createNotification draft now =>
        cases hr
        exact hk.notify hlog draft now
      | _ => cases hr

end Contents

/-! ## The store -/

namespace Table

variable {t : Table} {key value : String}

/-- The last key is the greatest one. -/
theorem lastKey?_cases (t : Table) :
    t.rows = [] ∧ t.lastKey? = none
      ∨ ∃ row ∈ t.rows, t.lastKey? = some row.1 ∧ ∀ other ∈ t.rows, other.1 ≤ row.1 := by
  rcases List.eq_nil_or_concat t.rows with hrows | ⟨before, last, hrows⟩
  · refine .inl ⟨hrows, ?_⟩
    rw [lastKey?, hrows]
    rfl
  · rw [List.concat_eq_append] at hrows
    have hsorted := t.sorted
    rw [hrows] at hsorted
    refine .inr ⟨last, by simp [hrows], by simp [lastKey?, hrows], ?_⟩
    intro other hother
    rw [hrows] at hother
    rcases List.mem_append.mp hother with hbefore | hlast
    · have hlt : other.1 < last.1 := (List.pairwise_append.mp hsorted).2.2 other hbefore last (by simp)
      exact String.not_lt.mp (String.lt_asymm hlt)
    · obtain rfl := List.mem_singleton.mp hlast
      exact String.le_refl _

theorem lastKey?_of_greatest (hrow : (key, value) ∈ t.rows) (hle : ∀ row ∈ t.rows, row.1 ≤ key) :
    t.lastKey? = some key := by
  rcases t.lastKey?_cases with ⟨hrows, -⟩ | ⟨row, hmem, hlast, hgreatest⟩
  · rw [hrows] at hrow
    cases hrow
  · rw [hlast, String.le_antisymm (hle row hmem) (hgreatest _ hrow)]

/-- The greatest key after a row was written. -/
theorem lastKey?_put (t : Table) (key value : String) :
    (t.put key value).lastKey? = some (match t.lastKey? with
      | some last => if last < key then key else last
      | none => key) := by
  have hnew : (key, value) ∈ (t.put key value).rows := mem_rows_put.mpr (.inl rfl)
  have hle {last : String} (hkey : key ≤ last) (hold : ∀ row ∈ t.rows, row.1 ≤ last) :
      ∀ row ∈ (t.put key value).rows, row.1 ≤ last := by
    intro row hrow
    rcases mem_rows_put.mp hrow with rfl | ⟨-, hrow⟩
    · exact hkey
    · exact hold row hrow
  rcases t.lastKey?_cases with ⟨hrows, hlast⟩ | ⟨⟨last, text⟩, hmem, hlast, hgreatest⟩
  · rw [hlast]
    refine lastKey?_of_greatest hnew (hle (String.le_refl _) ?_)
    rw [hrows]
    exact fun _ hrow => absurd hrow List.not_mem_nil
  · rw [hlast]
    by_cases hlt : last < key
    · have hle' : last ≤ key := String.not_lt.mp (String.lt_asymm hlt)
      simp only [if_pos hlt]
      refine lastKey?_of_greatest hnew (hle (String.le_refl _) ?_)
      intro row hrow
      exact String.le_trans (hgreatest row hrow) hle'
    · have hkey : key ≤ last := String.not_lt.mp hlt
      simp only [if_neg hlt]
      by_cases heq : last = key
      · subst heq
        exact lastKey?_of_greatest hnew (hle hkey hgreatest)
      · exact lastKey?_of_greatest (mem_rows_put.mpr (.inr ⟨heq, hmem⟩)) (hle hkey hgreatest)

end Table

namespace Store

variable {s : Store} {k : Contents} {name : TableName}

/-- Whether a store holds what was written. -/
structure Matches (s : Store) (k : Contents) : Prop where
  /-- Every row stands under the key of the record that it holds. -/
  wellFormed : s.WellFormed
  record?_eq : ∀ name id, s.record? name.collection (name.key id) = k.records name id
  lastKey?_eq : s.notifications.lastKey? = k.lastNotification.map idKey

theorem matches_empty : ({} : Store).Matches .empty := by
  refine ⟨wellFormed_empty, ?_, rfl⟩
  intro name id
  cases name <;> rfl

/-! ### What a request leaves -/

theorem record?_put_eq (hs : s.Matches k) (a : name.Record) (other : TableName) (id : other.Id) :
    (s.put name.collection (name.key (name.idOf a)) a).record? other.collection (other.key id)
      = (k.put name a).records other id := by
  by_cases hother : other = name
  · subst hother
    have hput : (k.put other a).records other id
        = if id = other.idOf a then some a else k.records other id :=
      congrFun (Function.update_self other _ k.records) id
    rw [hput]
    by_cases hid : id = other.idOf a
    · rw [if_pos hid, hid, record?_put_self]
    · rw [if_neg hid, record?_put_ne a fun he => hid (other.key_injective he), hs.record?_eq]
  · have htable : other.collection.table ≠ name.collection.table := by
      simpa using hother
    have hput : (k.put name a).records other id = k.records other id :=
      congrFun (Function.update_of_ne hother _ k.records) id
    rw [hput, record?_put_of_table_ne a htable, hs.record?_eq]

/-- Writing to another table leaves the notifications. -/
theorem notifications_put (hname : name ≠ .notifications) (key : String) (a : name.Record) :
    (s.put name.collection key a).notifications = s.notifications := by
  have htable : TableName.notifications ≠ name.collection.table := by
    simpa using Ne.symm hname
  have hput : (s.put name.collection key a).table .notifications = s.table .notifications :=
    table_put_ne a htable
  exact hput

/-- A record is written, and it is no notification. -/
theorem Matches.put (hs : s.Matches k) (name : TableName) (hname : name ≠ .notifications)
    (a : name.Record) :
    (s.put name.collection (name.key (name.idOf a)) a).Matches (k.put name a) := by
  refine ⟨hs.wellFormed.put name.collection rfl, record?_put_eq hs a, ?_⟩
  rw [notifications_put hname]
  exact hs.lastKey?_eq

/-- A notification is written. -/
theorem Matches.notify (hs : s.Matches k) (draft : NotificationDraft) (now : UInt64) :
    (s.createNotification draft now).2.Matches (k.notify draft now) := by
  have hnext : s.nextNotificationId = k.nextNotification := by
    unfold nextNotificationId Contents.nextNotification
    rw [hs.lastKey?_eq]
    cases k.lastNotification with
    | none => rfl
    | some last => simp only [Option.map_some, numberOfKey_idKey]
  let n : TableName.notifications.Record := draft.stored k.nextNotification now
  have hcreated : (s.createNotification draft now).2
      = s.put TableName.notifications.collection (TableName.notifications.key n.id) n := by
    unfold createNotification
    rw [hnext]
    rfl
  rw [hcreated]
  refine ⟨hs.wellFormed.put .notifications rfl, record?_put_eq hs n, ?_⟩
  show (s.notifications.put (idKey k.nextNotification) _).lastKey? = _
  rw [Table.lastKey?_put, hs.lastKey?_eq]
  unfold Contents.notify
  cases k.lastNotification with
  | none => rfl
  | some last =>
    have hlt : idKey last < idKey k.nextNotification ↔ last < k.nextNotification :=
      ⟨lt_of_idKey_lt, idKey_lt_idKey⟩
    simp only [Option.map_some, hlt]
    split <;> rfl

/-- A record is changed in its place. -/
theorem Matches.amend (hs : s.Matches k) (name : TableName) (hname : name ≠ .notifications) (id : name.Id)
    {change : name.Record → name.Record} (hchange : ∀ a, name.idOf (change a) = name.idOf a) :
    (s.modify name.collection (name.key id) change).Matches (k.amend name id change) := by
  refine ⟨?_, ?_, ?_⟩
  · unfold modify
    split
    · rename_i a ha
      refine hs.wellFormed.put name.collection ?_
      rw [hchange, ← hs.wellFormed.keyed.key_eq ha]
    · exact hs.wellFormed
  · intro other otherId
    by_cases hother : other = name
    · subst hother
      have hamend : (k.amend other id change).records other otherId
          = if otherId = id then (k.records other id).map change else k.records other otherId :=
        congrFun (Function.update_self other _ k.records) otherId
      rw [hamend, record?_modify, hs.record?_eq, hs.record?_eq]
      by_cases hid : otherId = id
      · rw [if_pos hid, if_pos (congrArg other.key hid)]
      · rw [if_neg hid, if_neg fun he => hid (other.key_injective he)]
    · have htable : other.collection.table ≠ name.collection.table := by
        simpa using hother
      have hamend : (k.amend name id change).records other otherId = k.records other otherId :=
        congrFun (Function.update_of_ne hother _ k.records) otherId
      rw [hamend, record?_modify_of_table_ne htable, hs.record?_eq]
  · have hnotifications : (s.modify name.collection (name.key id) change).notifications
        = s.notifications := by
      unfold modify
      split
      · exact notifications_put hname _ _
      · rfl
    rw [hnotifications]
    exact hs.lastKey?_eq

/-- The tasks are taken. -/
theorem Matches.clear (hs : s.Matches k) :
    ({ s with dnsTasks := .empty } : Store).Matches (k.clear .dnsTasks) := by
  refine ⟨hs.wellFormed.withoutDnsTasks, ?_, hs.lastKey?_eq⟩
  intro name id
  cases name with
  | dnsTasks => rfl
  | clusters => exact hs.record?_eq .clusters id
  | nodes => exact hs.record?_eq .nodes id
  | addresses => exact hs.record?_eq .addresses id
  | notifications => exact hs.record?_eq .notifications id
  | thresholds => exact hs.record?_eq .thresholds id

theorem after_eq_settled (s : Store) (r : StoreRequest) : s.after r = (Access.settled s (s.handle r)).2 := by
  unfold after
  cases s.handle r <;> rfl

/-- A request that reads leaves the store as it is. -/
theorem after_of_read {α : Type} {r : StoreRequest} {x : Except StoreError α} {f : α → StoreReply}
    (h : s.handle r = x.map fun a => (f a, s)) : s.after r = s := by
  unfold after
  rw [h]
  cases x <;> rfl

theorem after_updateNodeHealth (s : Store) (id : UInt64) (change : Health → Health) :
    s.after (.updateNodeHealth id change)
      = s.modify .nodes (idKey id) fun n => { n with health := change n.health } := by
  rw [after_eq_settled]
  show (Access.settled s ((s.updateNodeHealth id _).map _)).2 = _
  rw [updateNodeHealth]
  exact settled_update s _ _ _ (by intro _; rfl)

theorem after_updateAddressHealth (s : Store) (id : UInt64) (change : Health → Health) :
    s.after (.updateAddressHealth id change)
      = s.modify .addresses (idKey id) fun a => { a with health := change a.health } := by
  rw [after_eq_settled]
  show (Access.settled s ((s.updateAddressHealth id _).map _)).2 = _
  rw [updateAddressHealth]
  exact settled_update s _ _ _ (by intro _; rfl)

theorem after_setAddressBackup (s : Store) (id : UInt64) (backup : Option (UInt64 × String)) :
    s.after (.setAddressBackup id backup)
      = s.modify .addresses (idKey id) fun a => a.withBackup backup := by
  rw [after_eq_settled]
  show (Access.settled s ((s.setAddressBackup id backup).map _)).2 = _
  rw [setAddressBackup, map_map]
  exact settled_update s _ _ _ (by intro _; rfl)

/-- **A request writes to the store what it writes to the dictionary.** -/
theorem Matches.after (hs : s.Matches k) (r : StoreRequest) : (s.after r).Matches (k.after r) := by
  cases r with
  | putCluster c => exact hs.put .clusters nofun c
  | putNode n => exact hs.put .nodes nofun n
  | putAddress a => exact hs.put .addresses nofun a
  | putThreshold t => exact hs.put .thresholds nofun t
  | updateNodeHealth id change =>
    rw [after_updateNodeHealth]
    exact hs.amend .nodes nofun id fun _ => rfl
  | updateAddressHealth id change =>
    rw [after_updateAddressHealth]
    exact hs.amend .addresses nofun id fun _ => rfl
  | setAddressBackup id backup =>
    rw [after_setAddressBackup]
    exact hs.amend .addresses nofun id fun _ => rfl
  | createNotification draft now => exact hs.notify draft now
  | enqueueDnsTask nodeId taskType now =>
    let task : DnsTask := { nodeId, taskType, updatedAt := now, createdAt :=
      ((k.records .dnsTasks (nodeId, taskType)).map DnsTask.createdAt).getD now }
    have hwaiting : s.record? .dnsTasks (dnsTaskKey nodeId taskType)
        = k.records .dnsTasks (nodeId, taskType) := hs.record?_eq .dnsTasks (nodeId, taskType)
    have hqueued : s.handle (.enqueueDnsTask nodeId taskType now)
        = .ok (.dnsTask task, s.put .dnsTasks (dnsTaskKey nodeId taskType) task) := by
      show (s.enqueueDnsTask nodeId taskType now).map _ = _
      rw [enqueueDnsTask_eq hs.wellFormed, hwaiting]
      rfl
    rw [after_of_handle hqueued]
    exact hs.put .dnsTasks nofun task
  | takeDnsTasks =>
    have htaken : s.handle .takeDnsTasks
        = .ok (.dnsTasks (s.records .dnsTasks), { s with dnsTasks := .empty }) := by
      show s.takeDnsTasks.map _ = _
      rw [takeDnsTasks_of_wellFormed hs.wellFormed]
      rfl
    rw [after_of_handle htaken]
    exact hs.clear
  | _ =>
    rw [after_of_read rfl]
    exact hs

theorem afterAll_append (s : Store) (log log' : List StoreRequest) :
    s.afterAll (log ++ log') = (s.afterAll log).afterAll log' :=
  List.foldl_append

/-- **A store holds what was written to it**, one request after another. -/
theorem matches_afterAll (log : List StoreRequest) :
    (({} : Store).afterAll log).Matches (.ofLog log) := by
  induction log using List.reverseRecOn with
  | nil => exact matches_empty
  | append_singleton log r ih =>
    rw [afterAll_append, Contents.ofLog_concat]
    exact ih.after r

/-! ### What a store lists -/

theorem Matches.lists (hs : s.Matches k) (name : TableName) {test : name.Record → Bool}
    {keep : name.Record → Prop} (hkeep : ∀ a, test a = true ↔ keep a) :
    ∃ l, s.scan name.collection test = .ok l ∧ k.Lists name keep l := by
  have hkeyed := hs.wellFormed.keyed
  refine ⟨_, scan_of_decodes (hs.wellFormed.decodes name.collection) test, ?_, ?_⟩
  · exact ((hkeyed.pairwise_records (c := name.collection)).imp name.number_lt).filter _
  · intro id a
    rw [List.mem_filter, hkeyed.mem_records_iff, hs.record?_eq, hkeep]
    constructor
    · rintro ⟨⟨ha, hkept⟩, rfl⟩
      exact ⟨ha, hkept⟩
    · rintro ⟨ha, hkept⟩
      have hid : id = name.idOf a := by
        rw [← hs.record?_eq] at ha
        have hkey := hkeyed.key_eq ha
        exact name.key_injective hkey
      exact ⟨⟨hid ▸ ha, hkept⟩, hid.symm⟩

/-- Whether what a store holds and lists is what was written to it by one request after another. -/
structure Reflects (s : Store) (log : List StoreRequest) : Prop where
  /-- Every row stands under the key of the record that it holds. -/
  wellFormed : s.WellFormed
  /-- No two rows of a table hold records of one key. -/
  unique : ∀ name, ∀ row ∈ (s.table name).rows, ∀ other ∈ (s.table name).rows,
    name.keyOf? row.2 = name.keyOf? other.2 → row = other
  clusters : ∃ l, s.listClusters = .ok l ∧ (Contents.ofLog log).Lists .clusters (fun _ => True) l
  nodes : ∀ clusterId, ∃ l, s.findEnabledNodes clusterId = .ok l
    ∧ (Contents.ofLog log).Lists .nodes (fun n => n.clusterId = clusterId ∧ n.isOn = true) l
  addresses : ∀ nodeId, ∃ l, s.listAddresses nodeId = .ok l
    ∧ (Contents.ofLog log).Lists .addresses (fun a => a.nodeId = nodeId) l
  thresholds : ∀ nodeId, ∃ l, s.listThresholds nodeId = .ok l
    ∧ (Contents.ofLog log).Lists .thresholds (fun t => t.nodeId = nodeId) l
  notifications : ∃ l, s.listNotifications = .ok l
    ∧ (Contents.ofLog log).Lists .notifications (fun _ => True) l
  tasks : ∃ l, s.listDnsTasks = .ok l ∧ (Contents.ofLog log).Lists .dnsTasks (fun _ => True) l
  /-- As long as the numbers last, notifications are numbered from one on. -/
  numbered : (Contents.creations log).length < 2 ^ 64 →
    s.listNotifications = .ok (Contents.numbered (Contents.creations log))

theorem WellFormed.row_unique (hs : s.WellFormed) {row other : String × String}
    (hrow : row ∈ (s.table name).rows) (hother : other ∈ (s.table name).rows)
    (h : name.keyOf? row.2 = name.keyOf? other.2) : row = other := by
  have hkey : row.1 = other.1 := by
    rw [hs name row hrow, hs name other hother] at h
    exact Option.some.inj h
  have hfound : (s.table name).find? row.1 = some row.2 := Table.find?_eq_some_iff.mpr hrow
  have hfound' : (s.table name).find? other.1 = some other.2 := Table.find?_eq_some_iff.mpr hother
  rw [hkey, hfound'] at hfound
  exact Prod.ext hkey (Option.some.inj hfound).symm

/-- **What was written is what there is.** -/
theorem reflects_afterAll (log : List StoreRequest) : (({} : Store).afterAll log).Reflects log := by
  have hs := matches_afterAll log
  refine ⟨hs.wellFormed, fun _ _ hrow _ hother => hs.wellFormed.row_unique hrow hother, ?_, ?_, ?_, ?_,
    ?_, ?_, ?_⟩
  · exact hs.lists .clusters fun _ => by simp
  · intro clusterId
    exact hs.lists .nodes fun _ => by simp
  · intro nodeId
    exact hs.lists .addresses fun _ => by simp
  · intro nodeId
    exact hs.lists .thresholds fun _ => by simp
  · exact hs.lists .notifications fun _ => by simp
  · exact hs.lists .dnsTasks fun _ => by simp
  · intro hlog
    have hcounts := Contents.counts_ofLog log hlog
    have hrecords : (({} : Store).afterAll log).records .notifications
        = Contents.numbered (Contents.creations log) := by
      refine hs.wellFormed.keyed.records_eq (c := .notifications) ?_ ?_
      · exact (Contents.pairwise_numbered hlog).imp idKey_lt_idKey
      · intro a
        have hrecord := hs.record?_eq .notifications a.id
        rw [show (({} : Store).afterAll log).record? .notifications (idKey a.id) = _ from hrecord,
          hcounts.mem_iff]
        simp
    unfold listNotifications
    rw [scan_of_decodes (hs.wellFormed.decodes .notifications), hrecords]
    simp

end Store

end FleetHealth
