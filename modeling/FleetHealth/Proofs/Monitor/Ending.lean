import FleetHealth.Proofs.Monitor.Foresight
/-!
# Executions end

Every step of an execution uses up some of the work that is left, so none goes on for ever, and while a
run is not over there is a step for some run: the one whose answer is due next, if any is waited for.

* `Service.Foreseen.toDo_lt`, `Service.Foreseen.acc_goes` — no execution goes on for ever.
* `Service.Foreseen.exists_goes` — no execution gets stuck.
* `Service.Execution.exists_isOver` — so every execution can be brought to its end.
-/

namespace FleetHealth

variable {f : String → Nat → Reply} {s₀ s : Store} {as : List Assignment}
  {done : Nat → List Judgement} {i : Nat}

/-- How many steps a task may still take, when its cluster is the one of a store. -/
def Task.toDo (s : Store) (t : Task) : Nat :=
  match t.state with
  | .due =>
    match s.resolve t.clusterId with
    | .ok r => (Run.start r t.options.poolSize t.options.mode t.options.handlers t.options.ledger).toDo + 2
    | .error _ => 1
  | .running r => r.toDo + 1
  | _ => 0

theorem sum_map_set_lt {α : Type} {l : List α} {i : Nat} {x y : α} {size : α → Nat} (h : l[i]? = some x)
    (hlt : size y < size x) : ((l.set i y).map size).sum < (l.map size).sum := by
  obtain ⟨before, after, hl, hset⟩ := Run.exists_eq_append_cons h
  rw [hset y, hl]
  simp only [List.map_append, List.map_cons, List.sum_append, List.sum_cons]
  omega

namespace Service

variable {v v' : Service}

/-- How many steps the runs of a service may still take. -/
def toDo (s : Store) (v : Service) : Nat :=
  (v.tasks.map (Task.toDo s)).sum

/-- Whether all runs of a service are over. -/
def IsOver (v : Service) : Prop :=
  ∀ t ∈ v.tasks, ∃ outcome, t.state = .finished outcome

/-! ## No execution goes on for ever -/

/-- Runs of a cluster in stores of one fleet have the same to do. -/
theorem toDo_start_congr {r r' : Resolved} (hpolicy : r'.policy = r.policy)
    (htargets : r'.targets.map (Prod.map Node.identity (Option.map Address.identity))
      = r.targets.map (Prod.map Node.identity (Option.map Address.identity)))
    (poolSize : Nat) (mode : TrackingMode) (handlers : List Handler) (ledger : Option Store) :
    (Run.start r' poolSize mode handlers ledger).toDo = (Run.start r poolSize mode handlers ledger).toDo := by
  have hlength := congrArg List.length (Store.map_addressed_congr htargets)
  rw [List.length_map, List.length_map] at hlength
  simp only [Run.toDo, Run.start, hpolicy, hlength]

theorem toDo_setTask_lt {task task' : Task} (ht : v.tasks[i]? = some task)
    (hlt : task'.toDo s < task.toDo s) : (v.setTask i task').toDo s < v.toDo s :=
  sum_map_set_lt ht hlt

theorem Foreseen.toDo_lt_begin (hv : v.Foreseen f s₀ as done) (hs₀ : s₀.WellFormed) {now : UInt64}
    (hstep : v.step now (.begin i) = some v') : v'.toDo s₀ < v.toDo s₀ := by
  obtain ⟨task, ht, hdue, rfl⟩ := begin_eq_some hstep
  obtain ⟨a, state, -, rfl, -⟩ := hv.exists_assignment ht
  obtain rfl : state = .due := hdue
  unfold beginRun
  split
  · -- the run that starts has what the cluster had to do from the beginning
    rename_i resolved hresolve
    obtain ⟨resolved₀, hresolve₀, hpolicy, htargets⟩ :=
      Store.resolve_ok_congr hs₀ hv.store.fleet hresolve
    apply toDo_setTask_lt ht
    simp only [Task.toDo, Assignment.task] at hresolve₀ ⊢
    rw [hresolve₀]
    simp only [toDo_start_congr hpolicy htargets]
    omega
  · -- a run that is refused has nothing left to do
    rename_i e hresolve
    have hresolve₀ := Store.resolve_error_congr hv.store.wellFormed hs₀ hv.store.fleet hresolve
    apply toDo_setTask_lt ht
    simp only [Task.toDo, Assignment.task] at hresolve₀ ⊢
    rw [hresolve₀]
    exact Nat.zero_lt_one

/-- **Every step uses up some of the work that is left.** -/
theorem Foreseen.toDo_lt (hv : v.Foreseen f s₀ as done) (hs₀ : s₀.WellFormed) (h : v.Goes f v') :
    v'.toDo s₀ < v.toDo s₀ := by
  obtain ⟨hdue, hpass, hanswers, hstep⟩ := h
  cases hpass
  have hwaited := hv.wait hdue
  rename_i ms _ label
  show _ < Service.toDo s₀ { v with clock := v.clock + ms }
  generalize { v with clock := v.clock + ms : Service } = u at hstep hwaited
  cases label with
  | begin id => exact hwaited.toDo_lt_begin hs₀ hstep
  | work id label =>
    obtain ⟨task, r, store, r', ht, hr, hrun, rfl⟩ := work_eq_some hstep
    apply toDo_setTask_lt ht
    rw [Task.toDo, Task.toDo, Task.state_of_run? hr]
    exact Nat.succ_lt_succ (Run.toDo_lt_of_step hrun)
  | conclude id =>
    obtain ⟨task, r, ht, hr, -, rfl⟩ := conclude_eq_some hstep
    obtain ⟨a, state, -, rfl, -⟩ := hwaited.exists_assignment ht
    apply toDo_setTask_lt ht
    rw [Task.toDo, Task.toDo, Task.state_of_run? hr]
    exact Nat.succ_pos _
  | _ => exact hanswers.elim

/-- **No execution goes on for ever.** -/
theorem Foreseen.acc_goes (hv : v.Foreseen f s₀ as done) (has : DistinctClusters as)
    (hs₀ : s₀.WellFormed) (hf : ∀ ip k, (f ip k).outcome.isSome) :
    Acc (fun next now => now.Goes f next) v := by
  induction hleft : v.toDo s₀ using Nat.strongRecOn generalizing v done with
  | ind left ih =>
    refine ⟨v, ?_⟩
    intro next hgoes
    obtain ⟨done', hnext⟩ := hv.goes has hs₀ hf hgoes
    exact ih _ (hleft ▸ hv.toDo_lt hs₀ hgoes) hnext rfl

/-! ## No execution gets stuck -/

/-- A step that is possible at a time up to the next answer can be waited for. -/
theorem goes_of_step (label : ServiceLabel) {clock : Nat} (hclock : v.clock ≤ clock)
    (hdue : ∀ due ∈ v.answersDue, clock ≤ due) (hanswers : v.Answers f label)
    (hstep : ∃ v', { v with clock : Service }.step 0 label = some v') : ∃ v', v.Goes f v' := by
  obtain ⟨v', hstep⟩ := hstep
  have hpass : v.step 0 (.pass (clock - v.clock)) = some { v with clock } := by
    rw [step, Nat.add_sub_cancel' hclock]
  have hwaits : ∀ due ∈ v.answersDue, v.clock + (clock - v.clock) ≤ due := by
    rw [Nat.add_sub_cancel' hclock]
    exact hdue
  exact ⟨v', .intro hwaits hpass hanswers hstep⟩

theorem mem_answersDue {due : Nat} (h : due ∈ v.answersDue) :
    ∃ (i : Nat) (task : Task) (r : Run) (w : Nat) (t : Target) (a : Attempt) (sent : Nat) (reply : Reply),
      v.tasks[i]? = some task ∧ task.run? = some r
      ∧ r.workers[w]? = some (.probing t a sent reply) ∧ due = sent + reply.latency := by
  obtain ⟨task, htask, hmem⟩ := List.mem_flatMap.mp h
  obtain ⟨r, hr, hmem⟩ := List.mem_flatMap.mp hmem
  obtain ⟨worker, hworker, hdue⟩ := List.mem_filterMap.mp hmem
  obtain ⟨i, hi⟩ := List.getElem?_of_mem htask
  obtain ⟨w, hw⟩ := List.getElem?_of_mem hworker
  cases worker with
  | probing t a sent reply =>
    exact ⟨i, task, r, w, t, a, sent, reply, hi, Option.mem_toList.mp hr, hw, (Option.some.inj hdue).symm⟩
  | _ => cases hdue

/-- A run of a service can do whatever it could do on its own. -/
theorem goes_of_work {task : Task} {r : Run} (label : RunLabel) {clock : Nat}
    (ht : v.tasks[i]? = some task) (hr : task.run? = some r) (hclock : v.clock ≤ clock)
    (hdue : ∀ due ∈ v.answersDue, clock ≤ due) (hanswers : r.Answers f label)
    (hstep : ∃ next, r.step ⟨clock, 0⟩ v.store label = some next) : ∃ v', v.Goes f v' := by
  obtain ⟨next, hstep⟩ := hstep
  refine goes_of_step (.work i label) hclock hdue ?_ ?_
  · intro r' hr'
    rw [run?, ht, Option.bind_some, hr] at hr'
    cases hr'
    exact hanswers
  · simp [step, ht, hr, hstep]

/-- The answer that is due next can be received. -/
theorem Foreseen.exists_goes_receive (hv : v.Foreseen f s₀ as done) (hwaits : v.answersDue ≠ []) :
    ∃ v', v.Goes f v' := by
  obtain ⟨due, hmin⟩ := Option.isSome_iff_exists.mp (List.isSome_min?_of_ne_nil hwaits)
  obtain ⟨hmem, hleast⟩ := List.min?_eq_some_iff.mp hmin
  obtain ⟨i, task, r, w, t, a, sent, reply, ht, hr, hw, rfl⟩ := mem_answersDue hmem
  obtain ⟨assignment, state, -, rfl, hstands⟩ := hv.exists_assignment ht
  obtain rfl : state = .running r := Task.state_of_run? hr
  obtain ⟨-, -, hclock⟩ : (Worker.probing t a sent reply).OnTime f v.clock :=
    hstands.onTime _ (List.mem_of_getElem? hw)
  apply goes_of_work (.receive w) ht hr hclock hleast trivial
  rw [Run.step, hw]
  exact ⟨_, if_pos (Nat.le_refl _)⟩

/-- **No execution gets stuck.** -/
theorem Foreseen.exists_goes (hv : v.Foreseen f s₀ as done) (hover : ¬v.IsOver) : ∃ v', v.Goes f v' := by
  by_cases hwaits : v.answersDue = []
  · -- no answer is waited for, so time may pass as long as some run needs
    have hdue (clock : Nat) : ∀ due ∈ v.answersDue, clock ≤ due := by
      rw [hwaits]
      intro _ hmem
      exact absurd hmem List.not_mem_nil
    obtain ⟨task, hnot⟩ := Classical.not_forall.mp hover
    obtain ⟨htask, hopen⟩ := Classical.not_imp.mp hnot
    obtain ⟨i, ht⟩ := List.getElem?_of_mem htask
    obtain ⟨a, state, -, rfl, hstands⟩ := hv.exists_assignment ht
    generalize done i = judged at hstands
    cases hstands with
    | due =>
      apply goes_of_step (.begin i) (Nat.le_refl _) (hdue _) trivial
      simp [step, ht]
    | @running s₁ resolved h r =>
      cases hended : r.isOver with
      | true =>
        apply goes_of_step (.conclude i) (Nat.le_refl _) (hdue _) trivial
        simp [step, ht, Task.run?, hended]
      | false =>
        obtain ⟨clock, hstep⟩ := Run.exists_step f hended
        obtain ⟨label, next, hanswers, hnext⟩ :=
          hstep ⟨max v.clock clock, 0⟩ v.store (Nat.le_max_right _ _)
        exact goes_of_work label ht rfl (Nat.le_max_left _ _) (hdue _) hanswers ⟨next, hnext⟩
    | finished _ _ => exact absurd ⟨_, rfl⟩ hopen
  · exact hv.exists_goes_receive hwaits

/-- **Every execution can be brought to its end.** -/
theorem Execution.exists_isOver (h : Execution f (assigned s₀ as) v) (has : DistinctClusters as)
    (hs₀ : s₀.WellFormed) (hf : ∀ ip k, (f ip k).outcome.isSome) :
    ∃ v', Execution f (assigned s₀ as) v' ∧ v'.IsOver := by
  obtain ⟨done, hv⟩ := h.foreseen has hs₀ hf
  induction hv.acc_goes has hs₀ hf generalizing done with
  | intro v _ ih =>
    by_cases hover : v.IsOver
    · exact ⟨v, h, hover⟩
    · obtain ⟨next, hgoes⟩ := hv.exists_goes hover
      obtain ⟨done', hnext⟩ := hv.goes has hs₀ hf hgoes
      exact ih next hgoes (h.step hgoes) done' hnext

end Service

end FleetHealth
