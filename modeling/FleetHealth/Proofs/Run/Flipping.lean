import FleetHealth.Proofs.Health.Tracker
import FleetHealth.Proofs.Propagation.Passing
import FleetHealth.Proofs.Run.Settling
/-!
# Checks that flip their targets

A check flips its target if the verdict on the subject changes. Then, and only then, the handlers of the
run react, and what they do has no say in what becomes of health.

* `RunSettings.Counted` — what becomes of health and of the report.
* `RunSettings.Isolated`, `RunSettings.settle_isolated` — what the handlers make of it, if none of them
  touches health.
-/

namespace FleetHealth

/-- The report without the names of the handlers that failed. -/
def Report.unblamed (r : Report) : Report :=
  { r with failedHandlers := [] }

/-- Whether the verdict on a subject is another one in another store. -/
def Store.Flips (s s' : Store) (j : Subject) : Prop :=
  ∃ h h', s.health? j = some h ∧ s'.health? j = some h' ∧ h'.isUp ≠ h.isUp

namespace RunSettings

open Store

variable {c : RunSettings} {t : Target} {result : CheckResult} {now : UInt64} {s s' : Store}
  {ledger ledger' : Option Store} {report : Report}

/-- Whether a target flips from one store to another: the verdict on its subject changes. -/
def Flipped (c : RunSettings) (s s' : Store) (t : Target) : Prop :=
  ∃ j, c.subject? t = some j ∧ s.Flips s' j

/-- What a settled check comes to in the store that keeps health, whoever reacts to it. -/
structure Counted (c : RunSettings) (t : Target) (result : CheckResult) (now : UInt64) (s : Store)
    (report : Report) (s' : Store) : Prop where
  bare : report.bare = .checked t result
  transitionedTo : report.transitionedTo = ((c.subject? t).bind s.health?).bind fun h =>
    (c.policy.tracker.record h result.passed now).2.map (·.isUp)
  health : ∀ j, s'.health? j = if c.subject? t = some j then
      (s.health? j).map fun h => (c.policy.tracker.record h result.passed now).1
    else s.health? j

theorem Settled.counted (h : c.Settled t result now s report s') : c.Counted t result now s report s' :=
  ⟨h.bare, h.transitionedTo, h.health⟩

/-- What a check comes to shows in all of the report but the failures. -/
theorem Counted.unblamed_eq (h : c.Counted t result now s report s') :
    report.unblamed = { Report.checked t result with
      transitionedTo := ((c.subject? t).bind s.health?).bind fun h =>
        (c.policy.tracker.record h result.passed now).2.map (·.isUp) } := by
  have hbare := h.bare
  have htransition := h.transitionedTo
  obtain ⟨nodeId, nodeName, addressId, address, isUp, error, cost, attempts, transitionedTo, failed⟩ :=
    report
  cases hbare
  cases htransition
  rfl

/-- **A check reports a change of the verdict if and only if it flips its target.** -/
theorem Counted.isSome_transitionedTo_iff (h : c.Counted t result now s report s') :
    report.transitionedTo.isSome ↔ c.Flipped s s' t := by
  rw [h.transitionedTo]
  constructor
  · intro hreport
    obtain ⟨isUp, hup⟩ := Option.isSome_iff_exists.mp hreport
    obtain ⟨health, hhealth, hup⟩ := Option.bind_eq_some_iff.mp hup
    obtain ⟨j, hj, hh⟩ := Option.bind_eq_some_iff.mp hhealth
    refine ⟨j, hj, health, _, hh, by rw [h.health, if_pos hj, hh]; rfl, ?_⟩
    intro hsame
    rw [c.policy.tracker.map_isUp_record, if_pos hsame] at hup
    cases hup
  · rintro ⟨j, hj, health, health', hh, hh', hne⟩
    rw [h.health, if_pos hj, hh] at hh'
    cases hh'
    rw [hj, Option.bind_some, hh, Option.bind_some, c.policy.tracker.map_isUp_record, if_neg hne]
    rfl

/-! ## What the handlers make of it -/

/-- The store of the fleet when the result of a check has been recorded, before anyone reacts to it. -/
def noted (c : RunSettings) (t : Target) (result : CheckResult) (now : UInt64) (s : Store)
    (ledger : Option Store) : Store :=
  match ledger with
  | none => (c.record t result now s).2
  | some _ => s

/-- Settling a check is recording its result, and passing on the event of it. -/
theorem settle_eq (c : RunSettings) (t : Target) (result : CheckResult) (now : UInt64) (s : Store)
    (ledger : Option Store) :
    c.settle t result now s ledger
      = ((c.conclude t result (c.record t result now (ledger.getD s)).1 now
            (c.noted t result now s ledger)).1,
          (c.conclude t result (c.record t result now (ledger.getD s)).1 now
            (c.noted t result now s ledger)).2,
          ledger.map fun _ => (c.record t result now (ledger.getD s)).2) := by
  cases ledger <;> rfl

theorem noted_of_isSome (h : ledger.isSome) : c.noted t result now s ledger = s := by
  cases ledger with
  | none => cases h
  | some l => rfl

/-- What a settled check has to show when its handlers leave health alone. They react if the target
flipped, and not otherwise. -/
structure Isolated (c : RunSettings) (t : Target) (result : CheckResult) (now : UInt64) (s : Store)
    (ledger : Option Store) (report : Report) (s' : Store) (ledger' : Option Store) : Prop where
  counted : c.Counted t result now (ledger.getD s) report (ledger'.getD s')
  /-- The store of the fleet keeps its health, unless it is the one that counts. -/
  aside : ledger'.isSome = ledger.isSome ∧ (ledger.isSome → ∀ j, s'.health? j = s.health? j)
  steady : ¬c.Flipped (ledger.getD s) (ledger'.getD s') t →
    report.failedHandlers = [] ∧ s' = c.noted t result now s ledger
  /-- Every handler is run once, in order, on what the one before has left; the report names those that
  failed, and if these left no trace, it is as if the event had passed the others alone. -/
  flipped : c.Flipped (ledger.getD s) (ledger'.getD s') t →
    ∃ e log, (c.record t result now (ledger.getD s)).1 = some e
      ∧ report.transitionedTo = some e.isUp ∧ report.failedHandlers = failedNames log
      ∧ log.map (·.1) = c.handlers
      ∧ Passes e now (c.noted t result now s ledger) log s'
      ∧ ((∀ h ∈ c.handlers, h.FailsClean) →
        Passes e now (c.noted t result now s ledger) (log.filter (!·.2)) s')

/-- A report counts what was recorded if it says so and the handlers left health alone. -/
theorem counted_of_health? (hbare : report.bare = .checked t result)
    (hreport : report.transitionedTo = (c.record t result now (ledger.getD s)).1.map (·.isUp))
    (hhealth : ∀ j, s'.health? j = (c.noted t result now s ledger).health? j) :
    c.Counted t result now (ledger.getD s) report
      ((ledger.map fun _ => (c.record t result now (ledger.getD s)).2).getD s') := by
  obtain ⟨hup, hcounts⟩ := record_counts c t result now (ledger.getD s)
  refine ⟨hbare, hreport.trans hup, ?_⟩
  intro j
  rw [← hcounts j]
  cases ledger with
  | none => exact hhealth j
  | some l => rfl

/-- **A settled check counts whatever its handlers do**, if they leave health alone. -/
theorem settle_isolated (hspares : ∀ h ∈ c.handlers, h.SparesHealth)
    (hsettle : c.settle t result now s ledger = (report, s', ledger')) :
    c.Isolated t result now s ledger report s' ledger' := by
  rw [settle_eq] at hsettle
  cases hevent : (c.record t result now (ledger.getD s)).1 with
  | none =>
    rw [hevent] at hsettle
    cases hsettle
    -- nobody reacts, and the report says that the verdict has not changed
    have hcounted : c.Counted t result now (ledger.getD s) (.checked t result) _ :=
      counted_of_health? rfl (by rw [hevent]; rfl) fun _ => rfl
    refine ⟨hcounted, ⟨Option.isSome_map, fun h j => ?_⟩, fun _ => ⟨rfl, rfl⟩, ?_⟩
    · exact congrArg (·.health? j) (noted_of_isSome h)
    intro hflipped
    cases hcounted.isSome_transitionedTo_iff.mpr hflipped
  | some e =>
    obtain ⟨log, hlog, hpasses, hnames⟩ := passes_applyEvent e now c.handlers (c.noted t result now s ledger)
    rw [hevent] at hsettle
    cases hsettle
    have hmem {x : Handler × Bool} (hx : x ∈ log) : x.1 ∈ c.handlers := hlog ▸ List.mem_map_of_mem hx
    have hhealth := hpasses.health?_eq fun x hx => hspares x.1 (hmem hx)
    have hcounted : c.Counted t result now (ledger.getD s)
        (c.conclude t result (some e) now (c.noted t result now s ledger)).1 _ :=
      counted_of_health? rfl (by rw [hevent]; rfl) hhealth
    refine ⟨hcounted, ⟨Option.isSome_map, fun h j => ?_⟩, ?_, ?_⟩
    · exact (hhealth j).trans (congrArg (·.health? j) (noted_of_isSome h))
    · intro hsteady
      exact absurd (hcounted.isSome_transitionedTo_iff.mp rfl) hsteady
    · intro _
      refine ⟨e, log, hevent, rfl, hnames, hlog, hpasses, ?_⟩
      intro hclean
      exact hpasses.of_failsClean fun x hx => hclean x.1 (hmem hx)

end RunSettings

end FleetHealth
