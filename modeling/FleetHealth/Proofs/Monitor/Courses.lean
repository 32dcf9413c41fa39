import FleetHealth.Proofs.Monitor.Execution
import FleetHealth.Proofs.Monitor.Transitions
import FleetHealth.Proofs.Run.Accounting
/-!
# Runs of the service

Whatever the service does, each run that it has under way is on a course from the store at which it began,
and everybody else is one of the others who change the store in between. If there is nobody else, the
run goes its course alone. So what holds of courses holds of the runs of the service.

* `Service.Chronicle.onCourse`, `Service.Chronicle.course_of_conclude` — runs among others.
* `Service.MakesRun.performs` — a run on its own.
-/

namespace FleetHealth

/-- Whether the run of a task, if one is under way, is on a course from a store at which it began. -/
def Task.OnCourse (s : Store) (t : Task) : Prop :=
  ∀ r, t.run? = some r → ∃ s₀ resolved h, s₀.resolve t.clusterId = .ok resolved
    ∧ Run.Course (fun _ _ => True) s₀ (.start resolved t.options.poolSize t.options.mode
        t.options.handlers t.options.ledger) h s r

namespace Task.OnCourse

variable {s s' : Store} {t t' : Task}

theorem other (ht : t.OnCourse s) (s' : Store) : t.OnCourse s' := by
  intro r hr
  obtain ⟨s₀, resolved, h, hresolve, hcourse⟩ := ht r hr
  exact ⟨s₀, resolved, h, hresolve, hcourse.other trivial⟩

theorem aside (ht : t.OnCourse s) (h : t.Aside s t') : t'.OnCourse s := by
  cases h with
  | same => exact ht
  | marked => exact ht
  | begins hresolve =>
    intro r hr
    cases hr
    exact ⟨s, _, [], hresolve, .start⟩
  | rests _ _ hrun =>
    intro r hr
    rw [hrun] at hr
    cases hr

theorem work {r r' : Run} {m : Moment} {label : RunLabel} (ht : t.OnCourse s) (hr : t.run? = some r)
    (hstep : r.step m s label = some (s', r')) :
    Task.OnCourse s' { t with state := .running r' } := by
  obtain ⟨s₀, resolved, h, hresolve, hcourse⟩ := ht r hr
  intro r₁ hr₁
  cases hr₁
  exact ⟨s₀, resolved, _, hresolve, hcourse.step hstep⟩

end Task.OnCourse

namespace Service

variable {v₀ v v' : Service} {flips : List Flip} {act : Act} {now : UInt64} {id : Nat}

/-! ## Runs among others -/

theorem onCourse_of_perform (hv : ∀ t ∈ v.tasks, t.OnCourse v.store) (h : v.perform? act = some v') :
    ∀ t ∈ v'.tasks, t.OnCourse v'.store := by
  intro t' ht'
  cases act with
  | takeDnsTasks =>
    rw [perform?] at h
    split at h
    · cases h
      exact (hv t' ht').other _
    · cases h
  | serve now label =>
    have hstep : v.step now label = some v' := h
    by_cases hwork : ∃ id l, label = .work id l
    · obtain ⟨id, l, rfl⟩ := hwork
      obtain ⟨t, r, store, r', ht, hr, hrun, rfl⟩ := work_eq_some hstep
      rcases List.mem_or_eq_of_mem_set ht' with ht' | rfl
      · exact (hv t' ht').other _
      · exact (hv t (List.mem_of_getElem? ht)).work hr hrun
    · obtain ⟨hstore, htasks⟩ := aside_of_step (fun id l he => hwork ⟨id, l, he⟩) hstep
      rw [hstore]
      rcases htasks t' ht' with ⟨t, ht, haside⟩ | ⟨clusterId, options, interval, -, rfl⟩
      · exact (hv t ht).aside haside
      · -- a task that was just added has no run yet
        intro r hr
        cases hr

/-- **Every run of the service is on a course.** -/
theorem Chronicle.onCourse (hchronicle : Chronicle v₀ flips v) (htasks : v₀.tasks = []) :
    ∀ t ∈ v.tasks, t.OnCourse v.store := by
  induction hchronicle with
  | start =>
    intro t ht
    rw [htasks] at ht
    cases ht
  | act _ _ hstep ih => exact onCourse_of_perform ih hstep

/-- **A run is concluded with the results of a course that is over.** -/
theorem Chronicle.course_of_conclude (hchronicle : Chronicle v₀ flips v) (htasks : v₀.tasks = [])
    (hstep : v.step now (.conclude id) = some v') :
    ∃ t s₀ resolved h r, v.tasks[id]? = some t ∧ s₀.resolve t.clusterId = .ok resolved
      ∧ Run.Course (fun _ _ => True) s₀ (.start resolved t.options.poolSize t.options.mode
          t.options.handlers t.options.ledger) h v.store r
      ∧ r.isOver ∧ v' = v.setTask id (t.afterRun v.clock (.ok r.results)) := by
  obtain ⟨t, r, ht, hr, hover, rfl⟩ := conclude_eq_some hstep
  obtain ⟨s₀, resolved, h, hresolve, hcourse⟩ :=
    hchronicle.onCourse htasks t (List.mem_of_getElem? ht) r hr
  exact ⟨t, s₀, resolved, h, r, ht, hresolve, hcourse, hover, rfl⟩

end Service

/-! ## A run on its own -/

/-- Whether a step is one in the life of a run, or lets time pass. -/
def ServiceLabel.ConcernsRuns : ServiceLabel → Prop
  | .begin _ => True
  | .work _ _ => True
  | .conclude _ => True
  | .pass _ => True
  | _ => False

/-- How far the one run of an assignment has got, from one store to another. -/
inductive Assignment.Stage (a : Assignment) (s s' : Store) : TaskState → Prop
  | due : s' = s → Stage a s s' .due
  | running {resolved : Resolved} {h : List Happening} {r : Run} :
    s.resolve a.clusterId = .ok resolved →
    Run.Solo s (.start resolved a.poolSize a.mode standardPipeline none) h s' r → Stage a s s' (.running r)
  | finished {h : List Happening} {outcome : Except RunError (List Report)} :
    Run.Performs s a.clusterId a.poolSize a.mode h outcome s' → Stage a s s' (.finished outcome)

namespace Service

variable {s : Store} {a : Assignment} {v v' : Service}

/-- Where a service gets to that makes one run and does nothing else. -/
inductive MakesRun (s : Store) (a : Assignment) : Service → Prop
  | start : MakesRun s a (assigned s [a])
  | step {v v' : Service} {now : UInt64} {label : ServiceLabel} : MakesRun s a v →
    label.ConcernsRuns → v.step now label = some v' → MakesRun s a v'

theorem eq_of_getElem?_singleton {α : Type} {x y : α} {i : Nat} (h : [x][i]? = some y) : i = 0 ∧ x = y := by
  cases i with
  | zero => exact ⟨rfl, Option.some.inj h⟩
  | succ i => cases h

theorem MakesRun.stage (hmakes : MakesRun s a v) :
    ∃ state, v.tasks = [{ a.task with state }] ∧ a.Stage s v.store state := by
  induction hmakes with
  | start => exact ⟨.due, rfl, .due rfl⟩
  | @step v v' now label _ hlabel hstep ih =>
    obtain ⟨state, htasks, hstage⟩ := ih
    cases label with
    | begin id =>
      obtain ⟨t, ht, hdue, rfl⟩ := begin_eq_some hstep
      rw [htasks] at ht
      obtain ⟨rfl, rfl⟩ := eq_of_getElem?_singleton ht
      obtain rfl : state = .due := hdue
      cases hstage with
      | due hstore =>
        unfold beginRun
        split
        · rename_i resolved hresolve
          rw [hstore] at hresolve
          refine ⟨_, congrArg (List.set · 0 _) htasks, .running (h := []) hresolve ?_⟩
          show Run.Solo s _ [] v.store _
          rw [hstore]
          exact .start
        · rename_i e hresolve
          rw [hstore] at hresolve
          refine ⟨_, congrArg (List.set · 0 _) htasks, .finished (h := []) ?_⟩
          show Run.Performs s _ _ _ [] _ v.store
          rw [hstore]
          exact .refused hresolve
    | work id l =>
      obtain ⟨t, r, store, r', ht, hr, hrun, rfl⟩ := work_eq_some hstep
      rw [htasks] at ht
      obtain ⟨rfl, rfl⟩ := eq_of_getElem?_singleton ht
      obtain rfl : state = .running r := Task.state_of_run? hr
      cases hstage with
      | running hresolve hcourse =>
        exact ⟨_, congrArg (List.set · 0 _) htasks, .running hresolve (hcourse.step hrun)⟩
    | conclude id =>
      obtain ⟨t, r, ht, hr, hover, rfl⟩ := conclude_eq_some hstep
      rw [htasks] at ht
      obtain ⟨rfl, rfl⟩ := eq_of_getElem?_singleton ht
      obtain rfl : state = .running r := Task.state_of_run? hr
      cases hstage with
      | running hresolve hcourse =>
        exact ⟨_, congrArg (List.set · 0 _) htasks, .finished (.finished hresolve hcourse hover)⟩
    | pass ms =>
      cases hstep
      exact ⟨state, htasks, hstage⟩
    | _ => exact hlabel.elim

/-- **A run that the service makes on its own is performed as one.** -/
theorem MakesRun.performs (hmakes : MakesRun s a v) {t : Task} {outcome : Except RunError (List Report)}
    (ht : t ∈ v.tasks) (hfinished : t.state = .finished outcome) :
    ∃ h, Run.Performs s a.clusterId a.poolSize a.mode h outcome v.store := by
  obtain ⟨state, htasks, hstage⟩ := hmakes.stage
  rw [htasks] at ht
  obtain rfl := List.mem_singleton.mp ht
  obtain rfl : state = .finished outcome := hfinished
  cases hstage with
  | finished hperforms => exact ⟨_, hperforms⟩

end Service

end FleetHealth
