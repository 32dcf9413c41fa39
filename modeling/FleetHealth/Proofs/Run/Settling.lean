import FleetHealth.Proofs.Propagation.Pipeline
import FleetHealth.Proofs.Run.Target
/-!
# What settling a check does

A settled check is folded once into the health of its subject, the address or the node that the mode of
the run asks for, and no other health changes. A change of the verdict is reported and passed on.

* `RunSettings.record_of_health?`, `RunSettings.record_counts` — recording a result.
* `RunSettings.Settled`, `RunSettings.settled_settle` — settling a check, when everything is kept in one
  store.
-/

namespace FleetHealth

/-- The report without what the store had to say about the check. -/
def Report.bare (r : Report) : Report :=
  { r with transitionedTo := none, failedHandlers := [] }

namespace RunSettings

open Store

variable {c : RunSettings} {t : Target} {result : CheckResult} {now : UInt64} {s s' : Store}
  {j : Subject} {h : Health}

/-- Whose health a settled check of a target counts for. -/
def subject? (c : RunSettings) (t : Target) : Option Subject :=
  match c.mode with
  | .address => some (.address t.address.id)
  | .node => if c.policy.autoDown then some (.node t.node.id) else none

theorem subject?_eq_node {id : UInt64} (hsubject : c.subject? t = some (.node id)) :
    t.node.id = id := by
  unfold RunSettings.subject? at hsubject
  split at hsubject
  · cases hsubject
  · split at hsubject <;> cases hsubject
    rfl

theorem subject?_eq_address {id : UInt64}
    (hsubject : c.subject? t = some (.address id)) : t.address.id = id := by
  unfold RunSettings.subject? at hsubject
  split at hsubject
  · cases hsubject
    rfl
  · split at hsubject <;> cases hsubject

/-- The event of a change of the verdict that a check of a target brought about. -/
def eventOf (c : RunSettings) (t : Target) (change : Transition) (reason : Option String) : Event :=
  match c.mode with
  | .address => .ofAddress t.node t.address change reason
  | .node => .ofNode t.node change reason

/-! ## Recording -/

/-- A check without a subject, or with one that the store does not know, leaves no trace. -/
theorem record_of_not_judged (h : (c.subject? t).bind s.health? = none) (result : CheckResult)
    (now : UInt64) : c.record t result now s = (none, s) := by
  unfold subject? at h
  unfold record
  split
  · rename_i hmode
    rw [hmode] at h
    obtain ⟨e, he⟩ := recordAddress_of_record?_eq_none c.policy.tracker result.passed now
      (Option.map_eq_none_iff.mp h)
    rw [he]
  · rename_i hmode
    rw [hmode] at h
    split
    · rename_i hdown
      rw [if_pos hdown] at h
      obtain ⟨e, he⟩ := recordNode_of_record?_eq_none c.policy.tracker result.passed now
        (Option.map_eq_none_iff.mp h)
      rw [he]
    · rfl

/-- **A result is folded into the health of its subject once.** The event tells of the change that was
stored. -/
theorem record_of_health? (hj : c.subject? t = some j) (hh : s.health? j = some h)
    (result : CheckResult) (now : UInt64) :
    ∃ event s', c.record t result now s = (event, s')
      ∧ s.Rejudged j (c.policy.tracker.record h result.passed now).1 s'
      ∧ event.map (·.isUp) = (c.policy.tracker.record h result.passed now).2.map (·.isUp)
      ∧ (t.Rooted s → event = (c.policy.tracker.record h result.passed now).2.map
          fun change => c.eventOf t change result.reason) := by
  unfold subject? at hj
  unfold record
  cases hmode : c.mode with
  | address =>
    rw [hmode] at hj
    cases hj
    obtain ⟨a, ha, rfl⟩ := Option.map_eq_some_iff.mp hh
    obtain ⟨s', hrecord, hs'⟩ :=
      recordAddress_of_record? c.policy.tracker result.passed now ha
    simp only [hrecord]
    refine ⟨_, s', rfl, hs', ?_, ?_⟩
    · rw [Option.map_map]
      rfl
    · intro hroot
      have hidentity := hroot.identity_of_record?_address ha
      have hid : a.id = t.address.id := congrArg (fun a => a.id) hidentity
      have hip : a.ip = t.address.ip := congrArg (fun a => a.ip) hidentity
      simp only [eventOf, hmode, Event.ofAddress, hid, hip]
  | node =>
    simp only [hmode] at hj
    split at hj
    · rename_i hdown
      cases hj
      obtain ⟨n, hn, rfl⟩ := Option.map_eq_some_iff.mp hh
      obtain ⟨s', hrecord, hs'⟩ := recordNode_of_record? c.policy.tracker result.passed now hn
      simp only [hrecord, if_pos hdown]
      refine ⟨_, s', rfl, hs', ?_, ?_⟩
      · rw [Option.map_map]
        rfl
      · intro hroot
        have hidentity := hroot.identity_of_record?_node hn
        have hid : n.id = t.node.id := congrArg (fun n => n.id) hidentity
        have hcluster : n.clusterId = t.node.clusterId := congrArg (fun n => n.clusterId) hidentity
        have hname : n.name = t.node.name := congrArg (fun n => n.name) hidentity
        have hrole : n.role = t.node.role := congrArg (fun n => n.role) hidentity
        simp only [eventOf, hmode, Event.ofNode, hid, hcluster, hname, hrole]
    · cases hj

/-- **What recording a result comes to**: the health of the subject, and an event if that changes the
verdict. -/
theorem record_counts (c : RunSettings) (t : Target) (result : CheckResult) (now : UInt64) (s : Store) :
    (c.record t result now s).1.map (·.isUp) = ((c.subject? t).bind s.health?).bind
        (fun h => (c.policy.tracker.record h result.passed now).2.map (·.isUp))
      ∧ ∀ j, (c.record t result now s).2.health? j = if c.subject? t = some j then
          (s.health? j).map fun h => (c.policy.tracker.record h result.passed now).1
        else s.health? j := by
  cases hjudged : (c.subject? t).bind s.health? with
  | none =>
    rw [record_of_not_judged hjudged]
    refine ⟨rfl, ?_⟩
    intro j
    split
    · rename_i hj
      rw [hj, Option.bind_some] at hjudged
      rw [hjudged]
      rfl
    · rfl
  | some h =>
    obtain ⟨j, hj, hh⟩ := Option.bind_eq_some_iff.mp hjudged
    obtain ⟨event, s', hrecord, hs', hup, -⟩ := record_of_health? hj hh result now
    rw [hrecord]
    refine ⟨hup, ?_⟩
    intro k
    by_cases hk : k = j
    · rw [hk, if_pos hj, hh, hs'.self]
      rfl
    · rw [if_neg fun he => hk (Option.some.inj (he.symm.trans hj)), hs'.other k hk]

/-! ## Settling -/

/-- What a run with everything in one store has to show for a settled check. -/
structure Settled (c : RunSettings) (t : Target) (result : CheckResult) (now : UInt64) (s : Store)
    (report : Report) (s' : Store) : Prop where
  bare : report.bare = .checked t result
  transitionedTo : report.transitionedTo = ((c.subject? t).bind s.health?).bind fun h =>
    (c.policy.tracker.record h result.passed now).2.map (·.isUp)
  failedHandlers : s.WellFormed → report.failedHandlers = []
  health : ∀ j, s'.health? j = if c.subject? t = some j then
      (s.health? j).map fun h => (c.policy.tracker.record h result.passed now).1
    else s.health? j
  fleet : s'.fleet = s.fleet
  wellFormed : s.WellFormed → s'.WellFormed
  outbox : report.transitionedTo = none ∧ s'.notifications = s.notifications
      ∧ s'.dnsTasks = s.dnsTasks
    ∨ ∃ e : Event, report.transitionedTo = some e.isUp
      ∧ (t.Rooted s → e.nodeId = t.node.id ∧ e.role = t.node.role)
      ∧ s'.notifications = (s.createNotification e.draft now).2.notifications
      ∧ (s.WellFormed → e.role.participatesInDns → s'.AwaitsDns e.nodeId)
      ∧ ∀ nodeId, s.AwaitsDns nodeId → s'.AwaitsDns nodeId

/-- **Settling a check folds its result into the health of one subject**, reports a change of the verdict
and passes it on. -/
theorem settled_settle (hc : c.handlers = standardPipeline) (t : Target) (result : CheckResult)
    (now : UInt64) (s : Store) :
    ∃ report s', c.settle t result now s none = (report, s', none)
      ∧ c.Settled t result now s report s' := by
  unfold settle
  obtain ⟨hup, hhealth⟩ := record_counts c t result now s
  cases hjudged : (c.subject? t).bind s.health? with
  | none =>
    rw [record_of_not_judged hjudged] at hup hhealth ⊢
    exact ⟨_, s, rfl, ⟨rfl, hup, fun _ => rfl, hhealth, rfl, id, .inl ⟨rfl, rfl, rfl⟩⟩⟩
  | some h =>
    obtain ⟨j, hj, hh⟩ := Option.bind_eq_some_iff.mp hjudged
    obtain ⟨event, s₁, hrecord, hs₁, -, hevent⟩ := record_of_health? hj hh result now
    rw [hrecord] at hup hhealth ⊢
    cases event with
    | none =>
      -- the verdict stays: no reaction is asked for
      refine ⟨_, s₁, rfl, ⟨rfl, hup, fun _ => rfl, hhealth, hs₁.fleet, hs₁.wellFormed, ?_⟩⟩
      exact .inl ⟨rfl, hs₁.notifications, hs₁.dnsTasks⟩
    | some e =>
      -- what follows the recording does not touch health any more
      simp only [conclude, hc]
      have hdelivered := delivered_applyEvent e now s₁
      have hfailed := fun hs : s.WellFormed => applyEvent_of_wellFormed (hs₁.wellFormed hs) e now
      generalize applyEvent e now standardPipeline s₁ = passed at hdelivered hfailed ⊢
      obtain ⟨failed, s₂⟩ := passed
      refine ⟨_, s₂, rfl, ⟨rfl, hup, hfailed, fun k => (hdelivered.health k).trans (hhealth k),
        hdelivered.fleet.trans hs₁.fleet, fun hs => hdelivered.wellFormed (hs₁.wellFormed hs),
        .inr ⟨e, rfl, ?_, ?_, ?_, ?_⟩⟩⟩
      · intro hroot
        obtain ⟨change, -, rfl⟩ := Option.map_eq_some_iff.mp (hevent hroot).symm
        unfold eventOf
        split <;> exact ⟨rfl, rfl⟩
      · exact hdelivered.notifications.trans (createNotification_congr hs₁.notifications _ _)
      · intro hs
        exact hdelivered.awaitsDns (hs₁.wellFormed hs)
      · intro nodeId h
        exact hdelivered.keepsDns nodeId (h.congr hs₁.dnsTasks)

end RunSettings

end FleetHealth
