import FleetHealth.Proofs.Run.Course
/-!
# Health along a run

A run that keeps everything in one store touches it only when it settles a check, in a single step. So
the health that a run leaves behind differs from what it found only for the subjects of the checks that
it settled.

* `Run.Moves.effect` — what one step does to the store and to the reports.
* `Run.Course.health_eq` — the health of a subject without a settled check stays as it was.
-/

namespace FleetHealth

namespace Run

variable {r₀ r r' : Run} {h g : List Happening} {s₀ s s' : Store} {m : Moment} {j : Subject}

/-- Whether a run keeps health, and everything that follows from it, in the store of the fleet. -/
structure StoreBacked (r : Run) : Prop where
  handlers : r.settings.handlers = standardPipeline
  ledger : r.ledger = none

theorem storeBacked_start (resolved : Resolved) (poolSize : Nat) (mode : TrackingMode) :
    (start resolved poolSize mode standardPipeline none).StoreBacked :=
  ⟨rfl, rfl⟩

/-- What a step does to the store: nothing, unless it settles a check. -/
inductive Effect (m : Moment) (r : Run) (s : Store) : List Happening → Store → List Report → Prop
  | quiet {g : List Happening} : settledOf g = [] → Effect m r s g s r.reports
  | settles {t : Target} {result : CheckResult} {report : Report} {s' : Store} :
    .checked t result ∈ r.workers → r.settings.Settled t result m.now s report s' →
    Effect m r s [⟨t, .settled result⟩] s' (r.reports ++ [report])

theorem Moves.effect (hr : r.StoreBacked) (hmoves : r.Moves m s g s' r') :
    r'.StoreBacked ∧ r.Effect m s g s' r'.reports := by
  cases hmoves with
  | takes _ _ => exact ⟨⟨hr.handlers, hr.ledger⟩, .quiet rfl⟩
  | ends _ _ => exact ⟨⟨hr.handlers, hr.ledger⟩, .quiet rfl⟩
  | sends _ => exact ⟨⟨hr.handlers, hr.ledger⟩, .quiet rfl⟩
  | receives _ _ => exact ⟨⟨hr.handlers, hr.ledger⟩, .quiet rfl⟩
  | resumes _ _ => exact ⟨⟨hr.handlers, hr.ledger⟩, .quiet rfl⟩
  | @settles before after t result report s' ledger hworkers hsettle =>
    -- with no other ledger, settling is what `settled_settle` says of the one store
    obtain ⟨report₁, s₁, hsettle₁, hsettled⟩ :=
      RunSettings.settled_settle hr.handlers t result m.now s
    rw [hr.ledger, hsettle₁] at hsettle
    cases hsettle
    exact ⟨⟨hr.handlers, rfl⟩, .settles (by rw [hworkers]; simp) hsettled⟩

theorem Effect.fleet {reports : List Report} (h : r.Effect m s g s' reports) : s'.fleet = s.fleet := by
  cases h with
  | quiet _ => rfl
  | settles _ hsettled => exact hsettled.fleet

theorem Effect.wellFormed {reports : List Report} (h : r.Effect m s g s' reports) (hs : s.WellFormed) :
    s'.WellFormed := by
  cases h with
  | quiet _ => exact hs
  | settles _ hsettled => exact hsettled.wellFormed hs

/-- **Only a settled check changes health**, and only that of its subject. -/
theorem Effect.health_eq {reports : List Report} (h : r.Effect m s g s' reports)
    (hj : ∀ x ∈ settledOf g, r.settings.subject? x.1 ≠ some j) : s'.health? j = s.health? j := by
  cases h with
  | quiet _ => rfl
  | @settles t result report s' _ hsettled =>
    rw [hsettled.health, if_neg]
    exact hj (t, result) (List.mem_singleton.mpr rfl)

theorem Course.storeBacked {others : Store → Store → Prop} (hcourse : Course others s₀ r₀ h s r)
    (hr₀ : r₀.StoreBacked) : r.StoreBacked := by
  induction hcourse with
  | start => exact hr₀
  | step _ hstep ih => exact ((moves_of_step hstep).effect ih).1
  | other _ _ ih => exact ih

/-- A run on its own. -/
def Solo (s₀ : Store) (r₀ : Run) : List Happening → Store → Run → Prop :=
  Course (fun _ _ => False) s₀ r₀

/-- **A subject without a settled check keeps its health.** -/
theorem Solo.health_eq (hcourse : Solo s₀ r₀ h s r) (hr₀ : r₀.Fresh) (hback : r₀.StoreBacked)
    (hj : ∀ x ∈ settledOf h, r₀.settings.subject? x.1 ≠ some j) : s.health? j = s₀.health? j := by
  induction hcourse with
  | start => rfl
  | step hcourse hstep ih =>
    rw [settledOf_append] at hj
    -- neither this step nor those before it settled a check of the subject
    have heffect := ((moves_of_step hstep).effect (hcourse.storeBacked hback)).2
    have hsettings := (hcourse.ledger hr₀).settings
    rw [heffect.health_eq fun x hx => hsettings ▸ hj x (List.mem_append_right _ hx)]
    exact ih fun x hx => hj x (List.mem_append_left _ hx)
  | other _ hother _ => cases hother

end Run

end FleetHealth
