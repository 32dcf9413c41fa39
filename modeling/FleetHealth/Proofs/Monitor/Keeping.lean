import FleetHealth.Proofs.Run.Judging
import FleetHealth.Proofs.Monitor.Steps
/-!
# What the service keeps

A service whose tasks keep everything in its store changes that store only through the steps of their
runs, and those leave the fleet alone. So the targets that its runs hold stay rooted in the store, for
as long as they are held.

* `Service.Kept` — the invariant.
* `Service.Kept.step_aside` — a step that is not one of a run keeps it, and leaves the store alone.
* `Service.Kept.step_work` — a step of a run keeps it, whatever it does to the store.
-/

namespace FleetHealth

/-- Whether a task keeps health, and everything that follows from it, in the store of the fleet. -/
def RunOptions.StoreBacked (o : RunOptions) : Prop :=
  o.handlers = standardPipeline ∧ o.ledger = none

/-- Whether a label adds no other tasks than those that keep everything in one store. -/
def ServiceLabel.StoreBacked : ServiceLabel → Prop
  | .spawn _ o _ => o.StoreBacked
  | _ => True

/-- Whether a run keeps everything in a store, and all its targets are rooted there. -/
structure Run.Kept (s : Store) (r : Run) : Prop where
  storeBacked : r.StoreBacked
  rooted : ∀ t ∈ r.queue ++ r.held, t.Rooted s

/-- Whether a task keeps everything in a store, now and later. -/
structure Task.Kept (s : Store) (t : Task) : Prop where
  options : t.options.StoreBacked
  run : ∀ r, t.run? = some r → r.Kept s

namespace Run

variable {r r' : Run} {g : List Happening} {s s' : Store} {m : Moment}

/-- The targets of a run after a step are among those before it. -/
theorem Moves.targets_subset (hmoves : r.Moves m s g s' r') : r'.queue ++ r'.held ⊆ r.queue ++ r.held := by
  cases hmoves with
  | takes hworkers hqueue =>
    rw [held_eq hworkers, held_eq rfl, hqueue]
    intro t ht
    simp only [Worker.target?, Option.toList_some, Option.toList_none, List.mem_append, List.mem_cons,
      List.not_mem_nil, or_false, false_or] at ht ⊢
    grind
  | ends hworkers _ =>
    rw [held_eq hworkers, held_eq rfl]
    exact fun _ => id
  | sends hworkers =>
    rw [held_eq hworkers, held_eq rfl]
    exact fun _ => id
  | receives hworkers _ =>
    rw [held_eq hworkers, held_eq rfl, target?_answered]
    exact fun _ => id
  | resumes hworkers _ =>
    rw [held_eq hworkers, held_eq rfl]
    exact fun _ => id
  | settles hworkers _ =>
    rw [held_eq hworkers, held_eq rfl]
    intro t ht
    simp only [Worker.target?, Option.toList_some, Option.toList_none, List.mem_append,
      List.mem_singleton, List.not_mem_nil, false_or] at ht ⊢
    grind

theorem Moves.settings (hmoves : r.Moves m s g s' r') : r'.settings = r.settings := by
  cases hmoves <;> rfl

theorem Kept.congr (hfleet : s.fleet = s'.fleet) (hr : r.Kept s) : r.Kept s' :=
  ⟨hr.storeBacked, fun t ht => (hr.rooted t ht).congr hfleet⟩

theorem Kept.step (hr : r.Kept s) (hmoves : r.Moves m s g s' r') :
    r'.Kept s' ∧ r.Effect m s g s' r'.reports := by
  obtain ⟨hback, heffect⟩ := hmoves.effect hr.storeBacked
  exact ⟨⟨hback, fun t ht =>
    (hr.rooted t (hmoves.targets_subset ht)).congr heffect.fleet.symm⟩, heffect⟩

theorem kept_start {clusterId : UInt64} {resolved : Resolved} (hs : s.Keyed)
    (hresolve : s.resolve clusterId = .ok resolved) (poolSize : Nat) (mode : TrackingMode) :
    (start resolved poolSize mode standardPipeline none).Kept s := by
  refine ⟨storeBacked_start _ _ _, ?_⟩
  intro t ht
  rw [(fresh_start _ _ _ _ _).held_eq_nil, List.append_nil] at ht
  have ht' : t ∈ addressed resolved.targets := ht
  rw [(Store.resolve_eq_ok hresolve).2] at ht'
  exact Store.rooted_of_mem_addressed hs ht'

end Run

namespace Task

variable {s s' : Store} {t t' : Task}

theorem Kept.congr (hfleet : s.fleet = s'.fleet) (ht : t.Kept s) : t.Kept s' :=
  ⟨ht.options, fun r hr => (ht.run r hr).congr hfleet⟩

/-- A task without a run under way keeps what its options say. -/
theorem kept_of_run?_eq_none (hoptions : t.options.StoreBacked) (hrun : t.run? = none) : t.Kept s :=
  ⟨hoptions, fun r hr => by rw [hrun] at hr; cases hr⟩

theorem Kept.aside (ht : t.Kept s) (hs : s.Keyed) (h : t.Aside s t') : t'.Kept s := by
  cases h with
  | same => exact ht
  | marked => exact ⟨ht.options, ht.run⟩
  | begins hresolve =>
    refine ⟨ht.options, ?_⟩
    intro r hr
    cases hr
    -- the run is given the handlers and the ledger that the options of its task name
    rw [ht.options.1, ht.options.2]
    exact Run.kept_start hs hresolve _ _
  | rests _ hoptions hrun => exact kept_of_run?_eq_none (hoptions ▸ ht.options) hrun

end Task

namespace Service

variable {v v' : Service} {now : UInt64} {l : ServiceLabel} {id : Nat} {t : Task}

/-- Whether a service keeps everything in its store, which is well-formed. -/
structure Kept (v : Service) : Prop where
  wellFormed : v.store.WellFormed
  tasks : ∀ t ∈ v.tasks, t.Kept v.store

theorem Kept.of_getElem? (hv : v.Kept) (ht : v.tasks[id]? = some t) : t.Kept v.store :=
  hv.tasks t (List.mem_of_getElem? ht)

/-- **A step of the service that is not one of a run leaves its store alone.** -/
theorem Kept.step_aside (hv : v.Kept) (hl : l.StoreBacked) (hwork : ∀ id label, l ≠ .work id label)
    (hstep : v.step now l = some v') : v'.Kept ∧ v'.store = v.store := by
  obtain ⟨hstore, htasks⟩ := aside_of_step hwork hstep
  refine ⟨⟨hstore ▸ hv.wellFormed, ?_⟩, hstore⟩
  intro t' ht'
  rw [hstore]
  rcases htasks t' ht' with ⟨t, ht, haside⟩ | ⟨clusterId, options, interval, rfl, rfl⟩
  · exact (hv.tasks t ht).aside hv.wellFormed.keyed haside
  · exact Task.kept_of_run?_eq_none hl rfl

/-- **A step of a run keeps everything in the store of the service.** -/
theorem Kept.step_work {label : RunLabel} (hv : v.Kept)
    (hstep : v.step now (.work id label) = some v') :
    v'.Kept ∧ ∃ t r r', v.tasks[id]? = some t ∧ t.run? = some r ∧ r.Kept v.store
      ∧ v'.tasks[id]? = some { t with state := .running r' }
      ∧ r.step ⟨v.clock, now⟩ v.store label = some (v'.store, r')
      ∧ r.Effect ⟨v.clock, now⟩ v.store (r.happening? ⟨v.clock, now⟩ label).toList v'.store
        r'.reports := by
  obtain ⟨t, r, store, r', ht, hr, hrun, rfl⟩ := work_eq_some hstep
  have hkept := (hv.of_getElem? ht).run r hr
  obtain ⟨hkept', heffect⟩ := hkept.step (Run.moves_of_step hrun)
  refine ⟨⟨heffect.wellFormed hv.wellFormed, ?_⟩, t, r, r', ht, hr, hkept, ?_, hrun, heffect⟩
  · -- the other tasks keep their targets since the fleet stays the same
    intro t' ht'
    rcases List.mem_or_eq_of_mem_set ht' with ht' | rfl
    · exact (hv.tasks t' ht').congr heffect.fleet.symm
    · refine ⟨(hv.of_getElem? ht).options, ?_⟩
      intro r₁ hr₁
      cases hr₁
      exact hkept'
  · exact List.getElem?_set_self (List.getElem?_eq_some_iff.mp ht).1

end Service

end FleetHealth
