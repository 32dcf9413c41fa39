import FleetHealth.Proofs.Propagation.Repeating
import Mathlib.Data.List.Forall2
/-!
# Events delivered more than once

Whoever passes events on may do so again after a crash. Between deliveries clusters and nodes may be
edited; as long as no address or threshold is, and no DNS task is taken, delivering an event once more
shows in the notifications and nowhere else.

* `Notification.Tells` — what a notification says about an event.
* `Store.Deliveries` — what a history of deliveries makes of a store, and what it reports.
* `Thins` — a history with repeated deliveries left out.
* `Store.redelivery_is_harmless` — leaving them out makes no difference to addresses and DNS tasks.
-/

namespace FleetHealth

/-! ## Notifications -/

/-- What an event has befallen: a node, or one of its addresses. -/
def Event.subjectMatter (e : Event) : String :=
  e.address.elim ("node '" ++ e.nodeName ++ "'") fun ip =>
    "address " ++ ip ++ " of node '" ++ e.nodeName ++ "'"

/-- Whether a notification says what there is to say about an event that was delivered at a time. -/
structure Notification.Tells (n : Notification) (e : Event) (now : UInt64) : Prop where
  role : n.role = e.role
  clusterId : n.clusterId = e.clusterId
  nodeId : n.nodeId = e.nodeId
  messageType : n.messageType = if e.isUp then .nodeUp else .nodeDown
  level : n.level = if e.isUp then .success else .error
  subject : n.subject = e.address.elim
    ("node '" ++ e.nodeName ++ "' is " ++ if e.isUp then "up" else "down") fun ip =>
    "node '" ++ e.nodeName ++ "' address " ++ ip ++ " is " ++ if e.isUp then "up" else "down"
  body : n.body = if e.isUp then
      "health check passed again, " ++ e.subjectMatter ++ " was brought back online"
    else e.reason.elim ("health check failed, " ++ e.subjectMatter ++ " was taken offline automatically")
      fun reason =>
        "health check failed, " ++ e.subjectMatter ++ " was taken offline automatically: " ++ reason
  createdAt : n.createdAt = now

/-- The notification that is made of an event says what there is to say. -/
theorem Store.tells_numberDraft (e : Event) (id now : UInt64) :
    (numberDraft e.draft id now).Tells e now := by
  obtain ⟨clusterId, nodeId, nodeName, role, addressId, address, wasUp, isUp, reason⟩ := e
  refine ⟨rfl, rfl, rfl, rfl, rfl, ?_, ?_, rfl⟩
  · cases address <;> cases isUp <;> rfl
  · cases address <;> cases isUp <;> cases reason <;> rfl

namespace Store

variable {s : Store}

/-! ## Histories of deliveries -/

/-- Whether a store became another one while nobody touched what deliveries read and write. -/
structure Meanwhile (s s' : Store) : Prop where
  addresses : s'.addresses = s.addresses
  thresholds : s'.thresholds = s.thresholds
  dnsTasks : s'.dnsTasks = s.dnsTasks
  notifications : s'.notifications = s.notifications
  wellFormed : s.WellFormed → s'.WellFormed

/-- The store after events were delivered, each at its time, and what every delivery reported. -/
inductive Deliveries (s₀ : Store) : List (Event × UInt64) → List (List String) → Store → Prop
  | start : Deliveries s₀ [] [] s₀
  | meanwhile {xs reports s s'} : Deliveries s₀ xs reports s → s.Meanwhile s' →
      Deliveries s₀ xs reports s'
  | deliver {xs reports s} (x : Event × UInt64) : Deliveries s₀ xs reports s →
      Deliveries s₀ (xs ++ [x]) (reports ++ [(applyEvent x.1 x.2 standardPipeline s).1])
        (applyEvent x.1 x.2 standardPipeline s).2

namespace Deliveries

variable {s₀ : Store} {xs : List (Event × UInt64)} {reports : List (List String)}

theorem wellFormed (hs : s₀.WellFormed) (h : Deliveries s₀ xs reports s) : s.WellFormed := by
  induction h with
  | start => exact hs
  | meanwhile _ hmeanwhile ih => exact hmeanwhile.wellFormed ih
  | deliver x _ ih => exact (delivered_applyEvent x.1 x.2 _).wellFormed ih

theorem thresholds (h : Deliveries s₀ xs reports s) : s.thresholds = s₀.thresholds := by
  induction h with
  | start => rfl
  | meanwhile _ hmeanwhile ih => exact hmeanwhile.thresholds.trans ih
  | @deliver _ _ s x _ ih =>
    have hfleet := (delivered_applyEvent x.1 x.2 s).fleet
    exact (congrArg Fleet.thresholds hfleet).trans ih

/-- Every delivery reports that nothing failed. -/
theorem reports_eq (hs : s₀.WellFormed) (h : Deliveries s₀ xs reports s) :
    reports = List.replicate xs.length [] := by
  induction h with
  | start => rfl
  | meanwhile _ _ ih => exact ih
  | deliver x h ih =>
    rw [ih, applyEvent_of_wellFormed (h.wellFormed hs), List.length_append, List.replicate_add]
    rfl

/-- The rows of the addresses are those that the events make of them one after the other. -/
theorem row?_addresses (hs : s₀.WellFormed) (h : Deliveries s₀ xs reports s) (key : String) :
    s.row? .addresses key
      = (s₀.row? .addresses key).map fun row => (xs.map (·.1)).foldl (Event.rewrite s₀) row := by
  induction h with
  | start => exact Option.map_id_apply.symm
  | @meanwhile xs reports s s' _ hmeanwhile ih =>
    have hrow : s'.row? .addresses key = s.row? .addresses key :=
      congrArg (·.find? key) hmeanwhile.addresses
    exact hrow.trans ih
  | @deliver xs reports s x h ih =>
    have hsame : Event.rewrite s = Event.rewrite s₀ := by
      funext row e
      unfold Event.rewrite
      rw [thresholdsOn_congr h.thresholds]
    rw [row?_applyEvent (h.wellFormed hs), ih, Option.map_map, hsame]
    simp only [List.map_append, List.foldl_append]
    rfl

/-- The tasks are those that the events make of them one after the other, the times of the last requests
aside. -/
theorem record?_dnsTasks (hs : s₀.WellFormed) (h : Deliveries s₀ xs reports s) (key : String) :
    (s.record? .dnsTasks key).map DnsTask.undated
      = xs.foldl (Event.ask key) ((s₀.record? .dnsTasks key).map DnsTask.undated) := by
  induction h with
  | start => rfl
  | meanwhile _ hmeanwhile ih =>
    rw [record?_congr (c := .dnsTasks) hmeanwhile.dnsTasks]
    exact ih
  | deliver x h ih =>
    rw [record?_applyEvent (h.wellFormed hs), ih, List.foldl_append]
    rfl

/-- Every delivery appends a notification that tells of its event, and nothing else does. -/
theorem notifications (hs : s₀.WellFormed) (h : Deliveries s₀ xs reports s) (hroom : s.HasRoom) :
    ∃ added, s.records .notifications = s₀.records .notifications ++ added
      ∧ List.Forall₂ (fun x n => n.Tells x.1 x.2) xs added := by
  induction h with
  | start => exact ⟨[], (List.append_nil _).symm, .nil⟩
  | meanwhile _ hmeanwhile ih =>
    rw [records_notifications_congr hmeanwhile.notifications]
    exact ih (hroom.congr hmeanwhile.notifications.symm)
  | @deliver xs reports s x h ih =>
    have hnotified := (delivered_applyEvent x.1 x.2 s).notifications
    have hs := h.wellFormed hs
    have hroom : s.HasRoom := hasRoom_of_createNotification hs (hroom.congr hnotified.symm)
    obtain ⟨added, hadded, hall⟩ := ih hroom
    refine ⟨added ++ [numberDraft x.1.draft s.nextNotificationId x.2], ?_, ?_⟩
    · rw [records_notifications_congr hnotified, records_createNotification hs hroom, hadded,
        List.append_assoc]
    · exact List.rel_append hall (.cons (tells_numberDraft x.1 _ x.2) .nil)

/-- Deliveries into a store without notifications number theirs from one on, and there is room for all of
them as long as they are not more than there are numbers. -/
theorem hasRoom (hs : s₀.WellFormed) (hnone : s₀.notifications.rows = [])
    (h : Deliveries s₀ xs reports s) (hfew : xs.length < 18446744073709551615) :
    s.HasRoom ∧ s.nextNotificationId.toNat = xs.length + 1 := by
  induction h with
  | start =>
    refine ⟨hasRoom_of_rows_eq_nil hnone, ?_⟩
    rw [nextNotificationId, Table.lastKey?, hnone]
    rfl
  | meanwhile _ hmeanwhile ih =>
    obtain ⟨hroom, hnext⟩ := ih hfew
    exact ⟨hroom.congr hmeanwhile.notifications, by
      rw [nextNotificationId_congr hmeanwhile.notifications, hnext]⟩
  | @deliver xs reports s x h ih =>
    have hnotified := (delivered_applyEvent x.1 x.2 s).notifications
    have hs := h.wellFormed hs
    rw [List.length_append, List.length_singleton] at hfew ⊢
    obtain ⟨hroom, hnext⟩ := ih (by omega)
    constructor
    · intro n hn
      rw [records_notifications_congr hnotified, records_createNotification hs hroom,
        List.mem_append, List.mem_singleton] at hn
      rcases hn with hn | rfl
      · exact hroom n hn
      · rw [UInt64.lt_iff_toNat_lt]
        exact hnext ▸ hfew
    · rw [nextNotificationId_congr hnotified, nextNotificationId_createNotification hs hroom,
        UInt64.toNat_add, hnext]
      exact Nat.mod_eq_of_lt (by simp; omega)

end Deliveries

end Store

/-! ## Leaving deliveries out -/

/-- Whether a history leaves out deliveries of events that another one had delivered before. -/
inductive Thins : List (Event × UInt64) → List (Event × UInt64) → Prop
  | nil : Thins [] []
  | keep {xs ys} (x : Event × UInt64) : Thins xs ys → Thins (xs ++ [x]) (ys ++ [x])
  | drop {xs ys} (x : Event × UInt64) : Thins xs ys → x.1 ∈ xs.map (·.1) → Thins (xs ++ [x]) ys

/-- What a fold makes of a history does not change with deliveries that have no effect on it. -/
theorem Thins.foldl_eq {σ : Type} {f : σ → Event × UInt64 → σ} {xs ys : List (Event × UInt64)}
    (h : Thins xs ys) (a : σ)
    (hf : ∀ xs : List (Event × UInt64), ∀ x, x.1 ∈ xs.map (·.1) → f (xs.foldl f a) x = xs.foldl f a) :
    ys.foldl f a = xs.foldl f a := by
  induction h with
  | nil => rfl
  | keep x _ ih => rw [List.foldl_append, List.foldl_append, ih]
  | drop x _ hmem ih => exact ih.trans (by rw [List.foldl_append]; exact (hf _ x hmem).symm)

namespace Store

variable {s full thin : Store} {xs ys : List (Event × UInt64)} {reports reports' : List (List String)}

/-- **Delivering an event again is harmless.** Over a well-formed store every delivery reports that
nothing failed. Leaving out deliveries of events that were delivered before leaves the addresses as they
are, and the DNS tasks but for the times at which they were last asked for. Every delivery that is made
appends one notification, which tells of its event. -/
theorem redelivery_is_harmless (hs : s.WellFormed) (hthins : Thins xs ys)
    (hfull : s.Deliveries xs reports full) (hthin : s.Deliveries ys reports' thin) :
    reports = List.replicate xs.length []
      ∧ thin.addresses = full.addresses
      ∧ thin.view .dnsTasks DnsTask.undated = full.view .dnsTasks DnsTask.undated
      ∧ (full.HasRoom → ∃ added, full.records .notifications = s.records .notifications ++ added
          ∧ List.Forall₂ (fun x n => n.Tells x.1 x.2) xs added) := by
  refine ⟨hfull.reports_eq hs, ?_, ?_, hfull.notifications hs⟩
  · apply Table.ext_find?
    intro key
    have hrows {row : String} : (ys.map (·.1)).foldl (Event.rewrite s) row
        = (xs.map (·.1)).foldl (Event.rewrite s) row := by
      rw [List.foldl_map, List.foldl_map]
      apply hthins.foldl_eq
      intro xs x hx
      have hdone := Event.rewrite_of_mem hs hx row
      rw [List.foldl_map] at hdone
      exact hdone
    have hrow := hthin.row?_addresses hs key
    simp only [hrows] at hrow
    exact hrow.trans (hfull.row?_addresses hs key).symm
  · refine view_congr_of_record? ((hthin.wellFormed hs).decodes .dnsTasks)
      ((hfull.wellFormed hs).decodes .dnsTasks) ?_
    intro key
    rw [hthin.record?_dnsTasks hs, hfull.record?_dnsTasks hs]
    apply hthins.foldl_eq
    intro xs x hx
    exact Event.ask_of_mem hx _

/-- A store with an address that is down and a threshold that lends it a backup. -/
def guardedStore : Store :=
  ((({} : Store).putAddress
    { id := 1, nodeId := 1, ip := "10.0.0.1", canAccess := true, isOn := true,
      health := { isUp := false } })).putThreshold
    { id := 1, nodeId := 1, addressId := 1, backupIp := "10.9.9.9" }

theorem wellFormed_guardedStore : guardedStore.WellFormed :=
  (wellFormed_empty.put .addresses rfl).put .thresholds rfl

/-- The event of the address in that store going down. -/
def guardedDown : Event :=
  { clusterId := 1, nodeId := 1, nodeName := "edge-1", role := .node, addressId := some 1,
    address := some "10.0.0.1", wasUp := true, isUp := false, reason := none }

/-- The event of its node coming back. -/
def guardedBack : Event :=
  { guardedDown with addressId := none, address := none, wasUp := false, isUp := true }

/-- The event is delivered, then one that brings the node itself back, then the first one again: there are
three notifications then. -/
theorem redelivery_is_harmless_guardedStore :
    ∃ full thin : Store, ∃ reports reports',
      guardedStore.Deliveries [(guardedDown, 5), (guardedBack, 6), (guardedDown, 7)] reports full
        ∧ guardedStore.Deliveries [(guardedDown, 5), (guardedBack, 6)] reports' thin
        ∧ reports = [[], [], []] ∧ thin.addresses = full.addresses
        ∧ thin.view .dnsTasks DnsTask.undated = full.view .dnsTasks DnsTask.undated
        ∧ full.HasRoom
        ∧ ∃ first second third, full.records .notifications = [first, second, third]
          ∧ first.Tells guardedDown 5 ∧ second.Tells guardedBack 6 ∧ third.Tells guardedDown 7
          ∧ third.subject = "node 'edge-1' address 10.0.0.1 is down"
          ∧ second.body = "health check passed again, node 'edge-1' was brought back online" := by
  have hstart : guardedStore.Deliveries [] [] guardedStore := .start
  have hthin := (hstart.deliver (guardedDown, 5)).deliver (guardedBack, 6)
  have hfull := hthin.deliver (guardedDown, 7)
  have hthins := ((Thins.nil.keep (guardedDown, 5)).keep (guardedBack, 6)).drop (guardedDown, 7) (by simp)
  obtain ⟨hreports, haddresses, htasks, hnotified⟩ :=
    redelivery_is_harmless wellFormed_guardedStore hthins hfull hthin
  obtain ⟨hroom, -⟩ := hfull.hasRoom wellFormed_guardedStore rfl (by decide)
  obtain ⟨added, hadded, htells⟩ := hnotified hroom
  -- there were none before
  rw [records_notifications_of_rows_eq_nil (s := guardedStore) rfl, List.nil_append] at hadded
  cases htells with
  | cons hfirst htells =>
    cases htells with
    | cons hsecond htells =>
      cases htells with
      | cons hthird htells =>
        cases htells
        exact ⟨_, _, _, _, hfull, hthin, hreports, haddresses, htasks, hroom, _, _, _, hadded, hfirst,
          hsecond, hthird, hthird.subject, hsecond.body⟩

end Store

end FleetHealth
