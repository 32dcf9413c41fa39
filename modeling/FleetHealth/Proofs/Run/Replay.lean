import FleetHealth.Proofs.Run.Course
import Mathlib.Data.List.Induction
/-!
# Repeating a run

The store has a say in what a run reports, and in nothing else. So a run can be repeated without the
store, from what it was begun with and the steps that it took, and the same happens to its targets.

* `Run.map_plain_step` — a step on any store is, reports apart, the step on a store with nothing in it.
* `Run.replay`, `Run.replay_step` — repeating the steps of a run.
* `Run.Course.target_mem` — nothing happens to a target that was not there from the start.
-/

namespace FleetHealth

namespace Run

variable {m : Moment} {s s' : Store} {r r' : Run} {l : RunLabel}

/-- The run without what came of its transactions. -/
def plain (r : Run) : Run :=
  { r with reports := [], ledger := none }

/-- Where steps lead that are taken on a store with nothing in it, and what happens in them. -/
def replay (r : Run) (trail : List (Moment × RunLabel)) : Option (List Happening × Run) :=
  trail.foldlM (fun (h, r) (m, l) =>
    (r.step m {} l).map fun (_, r') => (h ++ (r.happening? m l).toList, r')) ([], r)

theorem replay_concat (r : Run) (trail : List (Moment × RunLabel)) (m : Moment) (l : RunLabel) :
    r.replay (trail ++ [(m, l)]) = (r.replay trail).bind fun x =>
      (x.2.step m {} l).map fun y => (x.1 ++ (x.2.happening? m l).toList, y.2) := by
  rw [replay, List.foldlM_append]
  refine congrArg (Option.bind _) (funext fun x => ?_)
  rw [List.foldlM_cons]
  exact bind_pure _

@[simp] theorem plain_workers (r : Run) : r.plain.workers = r.workers := rfl

@[simp] theorem plain_queue (r : Run) : r.plain.queue = r.queue := rfl

/-- The store has no say in a step, except in what is reported. -/
theorem map_plain_step (m : Moment) (s : Store) (r : Run) (l : RunLabel) :
    (r.step m s l).map (fun x => x.2.plain) = (r.plain.step m {} l).map fun x => x.2.plain := by
  cases l with
  | take w =>
    rw [step, step, plain_workers, plain_queue]
    split <;> rfl
  | send w reply =>
    rw [step, step, plain_workers]
    split <;> rfl
  | receive w =>
    rw [step, step, plain_workers]
    split
    · split <;> rfl
    · rfl
  | resume w =>
    rw [step, step, plain_workers]
    split
    · split <;> rfl
    · rfl
  | settle w =>
    rw [step, step, plain_workers]
    split <;> rfl

theorem happening?_plain (m : Moment) (r : Run) (l : RunLabel) :
    r.plain.happening? m l = r.happening? m l := by
  cases l <;> rfl

theorem step_settle_eq {w : Nat} {t : Target} {result : CheckResult}
    (hw : r.workers[w]? = some (.checked t result)) (m : Moment) (s : Store) :
    r.step m s (.settle w) = some ((r.settings.settle t result m.now s r.ledger).2.1,
      { r with
        reports := r.reports ++ [(r.settings.settle t result m.now s r.ledger).1]
        ledger := (r.settings.settle t result m.now s r.ledger).2.2 }.setWorker w .free) := by
  rw [step, hw]

theorem step_of_settle_eq {w : Nat} {t : Target} {result : CheckResult} {report : Report}
    {ledger : Option Store} (hw : r.workers[w]? = some (.checked t result))
    (hsettle : r.settings.settle t result m.now s r.ledger = (report, s', ledger)) :
    r.step m s (.settle w)
      = some (s', { r with reports := r.reports ++ [report], ledger }.setWorker w .free) := by
  rw [step_settle_eq hw, hsettle]

/-- A step that is taken on any store goes on with what its replay leads to. -/
theorem replay_step {r₀ : Run} {trail : List (Moment × RunLabel)} {h : List Happening}
    (hr : (r₀.replay trail).map (fun x => (x.1, x.2.plain)) = some (h, r.plain))
    (hstep : r.step m s l = some (s', r')) :
    (r₀.replay (trail ++ [(m, l)])).map (fun x => (x.1, x.2.plain))
      = some (h ++ (r.happening? m l).toList, r'.plain) := by
  obtain ⟨⟨h', q⟩, hreplay, hq⟩ := Option.map_eq_some_iff.mp hr
  obtain ⟨rfl, hplain⟩ := Prod.mk.inj hq
  have hsame : (q.step m {} l).map (fun x => x.2.plain) = some r'.plain := by
    rw [map_plain_step, hplain, ← map_plain_step m s, hstep]
    rfl
  obtain ⟨⟨s'', q'⟩, hq', hplain'⟩ := Option.map_eq_some_iff.mp hsame
  have hhappening : q.happening? m l = r.happening? m l := by
    rw [← happening?_plain m q, hplain, happening?_plain]
  rw [replay_concat, hreplay, Option.bind_some, hq', hhappening]
  exact congrArg (fun r => some (h' ++ (happening? m _ l).toList, r)) hplain'

/-- A replay is a course of the run, on a store that is empty again before each step. -/
theorem course_of_replay {trail : List (Moment × RunLabel)} {h : List Happening}
    (hr : r.replay trail = some (h, r')) : ∃ s, Course (fun _ s => s = {}) {} r h s r' := by
  induction trail using List.reverseRecOn generalizing h r' with
  | nil =>
    cases hr
    exact ⟨_, .start⟩
  | append_singleton trail x ih =>
    rw [replay_concat] at hr
    obtain ⟨⟨h', q⟩, hreplay, hq⟩ := Option.bind_eq_some_iff.mp hr
    obtain ⟨⟨s', q'⟩, hstep, heq⟩ := Option.map_eq_some_iff.mp hq
    cases heq
    obtain ⟨s, hcourse⟩ := ih hreplay
    exact ⟨s', (hcourse.other rfl).step hstep⟩

/-- What happens in a step happens to a target from the queue or one that was taken before. -/
theorem Moves.target_mem {g : List Happening} (hmoves : r.Moves m s g s' r') {x : Happening} (hx : x ∈ g) :
    x.target ∈ r.queue ∨ x.target ∈ r.held := by
  cases hmoves with
  | takes _ hqueue =>
    rw [List.mem_singleton.mp hx, hqueue]
    exact .inl List.mem_cons_self
  | ends => cases hx
  | sends hworkers =>
    rw [List.mem_singleton.mp hx, held_eq hworkers]
    exact .inr (List.mem_append_right _ List.mem_cons_self)
  | receives hworkers =>
    rw [List.mem_singleton.mp hx, held_eq hworkers]
    exact .inr (List.mem_append_right _ List.mem_cons_self)
  | resumes => cases hx
  | settles hworkers =>
    rw [List.mem_singleton.mp hx, held_eq hworkers]
    exact .inr (List.mem_append_right _ List.mem_cons_self)

/-- A target in the queue or in the hands of a worker was there from the start. -/
theorem Ledger.target_mem {r₀ : Run} {h : List Happening} (hr : Ledger r₀ h r) {t : Target}
    (ht : t ∈ r.queue ∨ t ∈ r.held) : t ∈ r₀.queue := by
  rw [← hr.queue]
  rcases ht with ht | ht
  · exact List.mem_append_right _ ht
  · exact List.mem_append_left _ (hr.held.mem_iff.mp (List.mem_append_right _ ht))

theorem Course.target_mem {others : Store → Store → Prop} {s₀ : Store} {r₀ : Run} {h : List Happening}
    (hcourse : Course others s₀ r₀ h s r) (hr₀ : r₀.Fresh) {x : Happening} (hx : x ∈ h) :
    x.target ∈ r₀.queue := by
  induction hcourse with
  | start => cases hx
  | step hcourse hstep ih =>
    rcases List.mem_append.mp hx with hx | hx
    · exact ih hx
    · exact (hcourse.ledger hr₀).target_mem ((moves_of_step hstep).target_mem hx)
  | other _ _ ih => exact ih hx

/-! ## Steps that settle no check -/

theorem settledOf_happening? (hl : ∀ w, l ≠ .settle w) : settledOf (r.happening? m l).toList = [] := by
  cases l with
  | take w =>
    rw [happening?]
    split <;> rfl
  | send w reply =>
    rw [happening?]
    split <;> rfl
  | receive w =>
    rw [happening?]
    split <;> rfl
  | resume w => rfl
  | settle w => exact absurd rfl (hl w)

/-- A step in which no check is settled, told by the worker that takes it. It is none whose check has a
result. -/
structure Quiet (s : Store) (r : Run) (s' : Store) (r' : Run) : Prop where
  store : s' = s
  ledger : r'.ledger = r.ledger
  reports : r'.reports = r.reports
  workers : ∃ before old new after, r.workers = before ++ old :: after ∧
    r'.workers = before ++ new :: after ∧ ∀ t result, old ≠ .checked t result

theorem Moves.quiet {g : List Happening} (hmoves : r.Moves m s g s' r') (hg : settledOf g = []) :
    Quiet s r s' r' := by
  cases hmoves with
  | takes hworkers => exact ⟨rfl, rfl, rfl, _, _, _, _, hworkers, rfl, fun _ _ h => nomatch h⟩
  | ends hworkers => exact ⟨rfl, rfl, rfl, _, _, _, _, hworkers, rfl, fun _ _ h => nomatch h⟩
  | sends hworkers => exact ⟨rfl, rfl, rfl, _, _, _, _, hworkers, rfl, fun _ _ h => nomatch h⟩
  | receives hworkers => exact ⟨rfl, rfl, rfl, _, _, _, _, hworkers, rfl, fun _ _ h => nomatch h⟩
  | resumes hworkers => exact ⟨rfl, rfl, rfl, _, _, _, _, hworkers, rfl, fun _ _ h => nomatch h⟩
  | settles => cases hg

theorem quiet_of_step (hl : ∀ w, l ≠ .settle w) (hstep : r.step m s l = some (s', r')) : Quiet s r s' r' :=
  (moves_of_step hstep).quiet (settledOf_happening? hl)

/-- A check with a result stays with its worker. -/
theorem Quiet.checked (hquiet : Quiet s r s' r') {w : Nat} {t : Target} {result : CheckResult}
    (hw : r.workers[w]? = some (.checked t result)) : r'.workers[w]? = some (.checked t result) := by
  obtain ⟨before, old, new, after, hworkers, hworkers', hold⟩ := hquiet.workers
  have hset : r'.workers = r.workers.set before.length new := by
    rw [hworkers, hworkers', List.set_append_right _ _ (Nat.le_refl _), Nat.sub_self, List.set_cons_zero]
  have hne : before.length ≠ w := by
    rintro rfl
    rw [hworkers, List.getElem?_append_right (Nat.le_refl _), Nat.sub_self] at hw
    exact hold t result (Option.some.inj hw)
  rw [hset, List.getElem?_set_ne hne, hw]

end Run

end FleetHealth
