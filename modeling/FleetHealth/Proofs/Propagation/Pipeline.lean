import FleetHealth.Proofs.Propagation.Backup
import FleetHealth.Proofs.Store.Outbox
import FleetHealth.Propagation.Pipeline
/-!
# What becomes of an event

The reactions of a fleet leave its health alone: they only write notifications, DNS tasks and backups.
Over a well-formed store all of them succeed.

* `Store.Delivered` — all that the standard pipeline does to a store.
* `delivered_applyEvent` — it does that to any store.
* `applyEvent_of_wellFormed` — no reaction fails over a well-formed store.
-/

namespace FleetHealth

/-- Whether a store is another one after an event was passed on. -/
structure Store.Delivered (e : Event) (now : UInt64) (s s' : Store) : Prop where
  health : ∀ j, s'.health? j = s.health? j
  fleet : s'.fleet = s.fleet
  wellFormed : s.WellFormed → s'.WellFormed
  notifications : s'.notifications = (s.createNotification e.draft now).2.notifications
  awaitsDns : s.WellFormed → e.role.participatesInDns → s'.AwaitsDns e.nodeId
  keepsDns : ∀ nodeId, s.AwaitsDns nodeId → s'.AwaitsDns nodeId

open Store

variable {s : Store}

/-! ## Handler by handler -/

theorem Handler.handle_of_concerns {h : Handler} {e : Event} (hconcerns : h.concerns e) (now : UInt64)
    (s : Store) :
    h.handle e now s = (!(h.deliver e now s).1.isOk, (h.deliver e now s).2) := by
  rw [handle, if_pos hconcerns]
  rcases h.deliver e now s with ⟨_ | _, s'⟩ <;> rfl

theorem Handler.handle_of_not_concerns {h : Handler} {e : Event} (hconcerns : ¬h.concerns e)
    (now : UInt64) (s : Store) : h.handle e now s = (false, s) := by
  rw [handle, if_neg hconcerns]

/-- Asking for a node to be published concerns nothing but the tasks. -/
theorem handle_dnsTask (e : Event) (now : UInt64) (s : Store) :
    (Handler.dnsTask.handle e now s).2 = s
      ∨ ∃ task, task.nodeId = e.nodeId ∧ task.taskType = .nodeChange
        ∧ (Handler.dnsTask.handle e now s).2
          = s.put .dnsTasks (dnsTaskKey e.nodeId .nodeChange) task := by
  by_cases hrole : Handler.dnsTask.concerns e
  · rw [Handler.handle_of_concerns hrole, Handler.dnsTask]
    cases henqueue : s.enqueueDnsTask e.nodeId .nodeChange now with
    | error err =>
      simp only [henqueue]
      exact .inl trivial
    | ok result =>
      simp only [henqueue]
      obtain ⟨hnode, htype, hput⟩ := enqueueDnsTask_eq_ok henqueue
      exact .inr ⟨result.1, hnode, trivial, hput⟩
  · rw [Handler.handle_of_not_concerns hrole]
    exact .inl rfl

theorem handle_dnsTask_of_wellFormed (hs : s.WellFormed) (e : Event) (now : UInt64) :
    (Handler.dnsTask.handle e now s).1 = false
      ∧ (e.role.participatesInDns → (Handler.dnsTask.handle e now s).2.AwaitsDns e.nodeId) := by
  by_cases hrole : Handler.dnsTask.concerns e
  · obtain ⟨⟨task, s'⟩, henqueue⟩ := enqueueDnsTask_of_wellFormed hs e.nodeId .nodeChange now
    obtain ⟨-, -, rfl⟩ := enqueueDnsTask_eq_ok henqueue
    rw [Handler.handle_of_concerns hrole, Handler.dnsTask]
    simp only [henqueue]
    refine ⟨rfl, ?_⟩
    intro _
    rw [AwaitsDns, record?_put_self]
    rfl
  · rw [Handler.handle_of_not_concerns hrole]
    exact ⟨rfl, fun h => absurd h hrole⟩

theorem wellFormed_handle_dnsTask (hs : s.WellFormed) (e : Event) (now : UInt64) :
    (Handler.dnsTask.handle e now s).2.WellFormed := by
  rcases handle_dnsTask e now s with h | ⟨task, hnode, htype, h⟩
  · rw [h]
    exact hs
  · rw [h]
    exact hs.put .dnsTasks (by rw [hnode, htype])

theorem rebacked_handle_threshold (e : Event) (now : UInt64) (s : Store) :
    s.Rebacked (Handler.threshold.handle e now s).2 := by
  by_cases haddress : Handler.threshold.concerns e
  · rw [Handler.handle_of_concerns haddress]
    exact rebacked_fire e.role e.nodeId s
  · rw [Handler.handle_of_not_concerns haddress]
    exact .refl s

theorem handle_threshold_of_wellFormed (hs : s.WellFormed) (e : Event) (now : UInt64) :
    (Handler.threshold.handle e now s).1 = false := by
  by_cases haddress : Handler.threshold.concerns e
  · rw [Handler.handle_of_concerns haddress]
    show (!(s.fire e.role e.nodeId).1.isOk) = false
    rw [fire_of_wellFormed hs]
    rfl
  · rw [Handler.handle_of_not_concerns haddress]

/-! ## The whole pipeline -/

/-- The store after the standard pipeline, handler by handler. -/
theorem applyEvent_standardPipeline (e : Event) (now : UInt64) (s : Store) :
    (applyEvent e now standardPipeline s).2
      = (Handler.threshold.handle e now
          (Handler.dnsTask.handle e now (s.createNotification e.draft now).2).2).2 :=
  rfl

/-- **Passing an event on leaves health alone.** It appends a notification, asks for the node to be
published again if nodes of its role are, and touches nothing else but backups. -/
theorem delivered_applyEvent (e : Event) (now : UInt64) (s : Store) :
    s.Delivered e now (applyEvent e now standardPipeline s).2 := by
  rw [applyEvent_standardPipeline]
  let s₁ := (s.createNotification e.draft now).2
  let s₂ := (Handler.dnsTask.handle e now s₁).2
  have hnotified : s.WellFormed → s₁.WellFormed := fun hs => wellFormed_createNotification hs e.draft now
  have htask : s₂ = s₁ ∨ ∃ task, task.nodeId = e.nodeId ∧ task.taskType = .nodeChange
      ∧ s₂ = s₁.put .dnsTasks (dnsTaskKey e.nodeId .nodeChange) task := handle_dnsTask e now s₁
  have hawaits : s.WellFormed → e.role.participatesInDns → s₂.AwaitsDns e.nodeId := fun hs =>
    (handle_dnsTask_of_wellFormed (hnotified hs) e now).2
  have hback : s₂.Rebacked (Handler.threshold.handle e now s₂).2 := rebacked_handle_threshold e now s₂
  have hpending {nodeId : UInt64} (h : s₂.AwaitsDns nodeId) :
      (Handler.threshold.handle e now s₂).2.AwaitsDns nodeId := h.congr hback.dnsTasks
  -- neither of the first two reactions touches a node or an address
  have hsame : (∀ j, s₂.health? j = s.health? j) ∧ s₂.fleet = s.fleet
      ∧ s₂.notifications = s₁.notifications := by
    rcases htask with h | ⟨task, -, -, h⟩ <;> rw [h] <;>
      exact ⟨fun j => by cases j <;> rfl, rfl, rfl⟩
  refine ⟨fun j => (hback.health j).trans (hsame.1 j), hback.fleet.trans hsame.2.1, ?_,
    hback.notifications.trans hsame.2.2, fun hs hrole => hpending (hawaits hs hrole), ?_⟩
  · -- a well-formed store stays so through all three reactions
    intro hs
    exact hback.wellFormed (wellFormed_handle_dnsTask (hnotified hs) e now)
  · intro nodeId h
    apply hpending
    -- a task that waits is not taken away by another one
    rcases htask with h' | ⟨task, -, -, h'⟩
    · exact h' ▸ h
    · exact h' ▸ AwaitsDns.put (s := s₁) h task

theorem applyEvent_cons (e : Event) (now : UInt64) (h : Handler) (rest : List Handler) (s : Store) :
    (applyEvent e now (h :: rest) s).1
      = if (h.handle e now s).1 then h.name :: (applyEvent e now rest (h.handle e now s).2).1
        else (applyEvent e now rest (h.handle e now s).2).1 :=
  rfl

/-- Over a well-formed store every reaction succeeds. -/
theorem applyEvent_of_wellFormed (hs : s.WellFormed) (e : Event) (now : UInt64) :
    (applyEvent e now standardPipeline s).1 = [] := by
  have hnotified := wellFormed_createNotification hs e.draft now
  have hdns := (handle_dnsTask_of_wellFormed hnotified e now).1
  have hthreshold :=
    handle_threshold_of_wellFormed (wellFormed_handle_dnsTask hnotified e now) e now
  have hnotification : Handler.notification.handle e now s = (false, (s.createNotification e.draft now).2) :=
    rfl
  rw [standardPipeline, applyEvent_cons, applyEvent_cons, applyEvent_cons, hnotification, hdns,
    hthreshold]
  rfl

end FleetHealth
