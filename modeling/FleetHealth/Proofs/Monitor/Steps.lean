import FleetHealth.Monitor.Service
/-!
# Steps of the service

The steps of a run change its task and the store; every other step leaves the store alone, and there is
little that it can make of a task.

* `Service.begin_eq_some`, `Service.work_eq_some`, `Service.conclude_eq_some` — the steps in the life of a
  run.
* `Service.aside_of_step` — what the other steps make of the tasks.
-/

namespace FleetHealth

/-- What a step that is not one of a run may make of a task, when the service has a store. -/
inductive Task.Aside (s : Store) (t : Task) : Task → Prop
  /-- The task stays as it is. -/
  | same : Aside s t t
  /-- The task is marked as no longer wanted. -/
  | marked : Aside s t { t with cancelled := true }
  /-- The task begins a run. -/
  | begins {resolved : Resolved} : s.resolve t.clusterId = .ok resolved →
    Aside s t { t with
      state := .running (.start resolved t.options.poolSize t.options.mode t.options.handlers
        t.options.ledger) }
  /-- The task is left without a run. -/
  | rests {t' : Task} : t'.clusterId = t.clusterId → t'.options = t.options → t'.run? = none → Aside s t t'

namespace Task

variable {t : Task}

theorem state_of_run? {r : Run} (h : t.run? = some r) : t.state = .running r := by
  unfold run? at h
  split at h
  · rename_i hstate
    rw [hstate, Option.some.inj h]
  · cases h

theorem Aside.afterRun (s : Store) (t : Task) (clock : Nat) (outcome : Except RunError (List Report)) :
    t.Aside s (t.afterRun clock outcome) := by
  unfold Task.afterRun
  split
  · exact .rests rfl rfl rfl
  · exact .rests rfl rfl rfl

end Task

namespace Service

variable {v v' : Service} {now : UInt64} {l : ServiceLabel} {id : Nat} {t t' : Task}

/-- The run that a task has under way. -/
def run? (v : Service) (id : Nat) : Option Run :=
  v.tasks[id]?.bind Task.run?

/-! ## The life of a run -/

/-- A run begins when it is due. -/
theorem begin_eq_some (hstep : v.step now (.begin id) = some v') :
    ∃ t, v.tasks[id]? = some t ∧ t.state = .due ∧ v' = v.beginRun id t := by
  simp only [step, Option.bind_eq_bind, Option.bind_eq_some_iff] at hstep
  obtain ⟨t, ht, hstep⟩ := hstep
  split at hstep
  · rename_i hdue
    exact ⟨t, ht, hdue, (Option.some.inj hstep).symm⟩
  · cases hstep

/-- A step of a run is one of its machine, in the store of the service. -/
theorem work_eq_some {label : RunLabel} (hstep : v.step now (.work id label) = some v') :
    ∃ t r store r', v.tasks[id]? = some t ∧ t.run? = some r
      ∧ r.step ⟨v.clock, now⟩ v.store label = some (store, r')
      ∧ v' = { v.setTask id { t with state := .running r' } with store } := by
  simp only [step, Option.bind_eq_bind, Option.bind_eq_some_iff] at hstep
  obtain ⟨t, ht, r, hr, ⟨store, r'⟩, hrun, hstep⟩ := hstep
  exact ⟨t, r, store, r', ht, hr, hrun, (Option.some.inj hstep).symm⟩

/-- A run is concluded when it is over. -/
theorem conclude_eq_some (hstep : v.step now (.conclude id) = some v') :
    ∃ t r, v.tasks[id]? = some t ∧ t.run? = some r ∧ r.isOver
      ∧ v' = v.setTask id (t.afterRun v.clock (.ok r.results)) := by
  simp only [step, Option.bind_eq_bind, Option.bind_eq_some_iff] at hstep
  obtain ⟨t, ht, r, hr, hstep⟩ := hstep
  split at hstep
  · rename_i hover
    exact ⟨t, r, ht, hr, hover, (Option.some.inj hstep).symm⟩
  · cases hstep

/-! ## All other steps -/

/-- Whether a service is another one with some tasks marked as no longer wanted. -/
structure Marked (v v' : Service) : Prop where
  store : v'.store = v.store
  tasks : ∀ t' ∈ v'.tasks, ∃ t ∈ v.tasks, t' = t ∨ t' = { t with cancelled := true }

theorem Marked.refl (v : Service) : Marked v v :=
  ⟨rfl, fun t ht => ⟨t, ht, .inl rfl⟩⟩

theorem Marked.cancel (h : Marked v v') (id : Nat) : Marked v (v'.cancel id) := by
  unfold Service.cancel
  split
  · rename_i t ht
    refine ⟨h.store, ?_⟩
    intro t' ht'
    rcases List.mem_or_eq_of_mem_set ht' with ht' | rfl
    · exact h.tasks t' ht'
    · -- a task that is marked already stays as it is
      obtain ⟨t₀, ht₀, rfl | rfl⟩ := h.tasks t (List.mem_of_getElem? ht)
      · exact ⟨t, ht₀, .inr rfl⟩
      · exact ⟨t₀, ht₀, .inr rfl⟩
  · exact h

theorem Marked.cancelAll (h : Marked v v') (entries : List (UInt64 × Nat)) :
    Marked v (entries.foldl (fun v entry => v.cancel entry.2) v') := by
  induction entries generalizing v' with
  | nil => exact h
  | cons entry rest ih => exact ih (h.cancel entry.2)

theorem Marked.aside (h : Marked v v') (ht' : t' ∈ v'.tasks) : ∃ t ∈ v.tasks, t.Aside v.store t' := by
  obtain ⟨t, ht, rfl | rfl⟩ := h.tasks t' ht'
  · exact ⟨t', ht, .same⟩
  · exact ⟨t, ht, .marked⟩

/-- The tasks after one of them was changed. -/
theorem aside_setTask (ht : v.tasks[id]? = some t) (h : t.Aside v.store t') :
    ∀ t₁ ∈ (v.setTask id t').tasks, ∃ t ∈ v.tasks, t.Aside v.store t₁ := by
  intro t₁ ht₁
  rcases List.mem_or_eq_of_mem_set ht₁ with ht₁ | rfl
  · exact ⟨t₁, ht₁, .same⟩
  · exact ⟨t, List.mem_of_getElem? ht, h⟩

theorem aside_beginRun (ht : v.tasks[id]? = some t) :
    (v.beginRun id t).store = v.store
      ∧ ∀ t' ∈ (v.beginRun id t).tasks, ∃ t ∈ v.tasks, t.Aside v.store t' := by
  unfold beginRun
  split
  · rename_i resolved hresolve
    exact ⟨rfl, aside_setTask ht (.begins hresolve)⟩
  · exact ⟨rfl, aside_setTask ht (.afterRun _ _ _ _)⟩

/-- **A step that is not one of a run leaves the store alone**, and every task that was not added by it
is one that was there before, marked, begun or without a run. -/
theorem aside_of_step (hwork : ∀ id label, l ≠ .work id label) (hstep : v.step now l = some v') :
    v'.store = v.store ∧ ∀ t' ∈ v'.tasks, (∃ t ∈ v.tasks, t.Aside v.store t')
      ∨ ∃ clusterId options interval, l = .spawn clusterId options interval
        ∧ t' = ⟨clusterId, options, interval, false, .due⟩ := by
  cases l with
  | spawn clusterId options interval =>
    cases hstep
    refine ⟨rfl, ?_⟩
    intro t' ht'
    rcases List.mem_append.mp ht' with ht' | ht'
    · exact .inl ⟨t', ht', .same⟩
    · exact .inr ⟨_, _, _, rfl, List.mem_singleton.mp ht'⟩
  | register id =>
    simp only [step, Option.bind_eq_bind, Option.bind_eq_some_iff] at hstep
    obtain ⟨t, -, hstep⟩ := hstep
    cases hstep
    -- the monitor before, if there is one, is no longer wanted
    split
    · rename_i old _
      have hmarked := (Marked.refl v).cancel old
      exact ⟨hmarked.store, fun t' ht' => .inl (hmarked.aside ht')⟩
    · exact ⟨rfl, fun t' ht' => .inl ⟨t', ht', .same⟩⟩
  | unregister clusterId =>
    simp only [step, Option.bind_eq_bind, Option.bind_eq_some_iff] at hstep
    obtain ⟨old, -, hstep⟩ := hstep
    cases hstep
    have hmarked := (Marked.refl v).cancel old
    exact ⟨hmarked.store, fun t' ht' => .inl (hmarked.aside ht')⟩
  | unregisterAll =>
    cases hstep
    have hmarked := (Marked.refl v).cancelAll v.registry
    exact ⟨hmarked.store, fun t' ht' => .inl (hmarked.aside ht')⟩
  | begin id =>
    obtain ⟨t, ht, -, rfl⟩ := begin_eq_some hstep
    obtain ⟨hstore, htasks⟩ := aside_beginRun ht
    exact ⟨hstore, fun t' ht' => .inl (htasks t' ht')⟩
  | work id label => exact absurd rfl (hwork id label)
  | conclude id =>
    obtain ⟨t, r, ht, -, -, rfl⟩ := conclude_eq_some hstep
    exact ⟨rfl, fun t' ht' => .inl (aside_setTask ht (.afterRun _ _ _ _) t' ht')⟩
  | wake id =>
    simp only [step, Option.bind_eq_bind, Option.bind_eq_some_iff] at hstep
    obtain ⟨t, ht, hstep⟩ := hstep
    split at hstep
    · split at hstep
      · cases hstep
        have hdue : t.Aside v.store { t with state := .due } := .rests rfl rfl rfl
        exact ⟨rfl, fun t' ht' => .inl (aside_setTask ht hdue t' ht')⟩
      · cases hstep
    · cases hstep
  | drop id =>
    simp only [step, Option.bind_eq_bind, Option.bind_eq_some_iff] at hstep
    obtain ⟨t, ht, hstep⟩ := hstep
    split at hstep
    · cases hstep
      have hdropped : t.Aside v.store { t with state := .dropped } := .rests rfl rfl rfl
      exact ⟨rfl, fun t' ht' => .inl (aside_setTask ht hdropped t' ht')⟩
    · cases hstep
  | pass ms =>
    cases hstep
    exact ⟨rfl, fun t' ht' => .inl ⟨t', ht', .same⟩⟩

end Service

end FleetHealth
