import FleetHealth.Proofs.Monitor.Execution
import Mathlib.Logic.Function.Basic
/-!
# Executions come out as foreseen

The runs of an execution share one store. As no two of their checks count for one subject, none of them
sees what another has left behind: the first check of each subject is also the last, and it finds the
health that was there at the start.

* `Store.Foretold`, `Store.Foretold.settle` — the health of every subject, when some checks are done.
* `Service.Foreseen`, `Service.Foreseen.goes` — the invariant of an execution, and that it is kept.
-/

namespace FleetHealth

/-- Whether the runs of a list of assignments are of different clusters. -/
def DistinctClusters (as : List Assignment) : Prop :=
  (as.map (·.clusterId)).Nodup

variable {f : String → Nat → Reply} {s₀ s s' : Store} {as : List Assignment}
  {done : Nat → List Judgement} {i k : Nat} {a a' : Assignment} {g g' : Judgement} {j : Subject}

theorem DistinctClusters.eq (has : DistinctClusters as) (ha : as[i]? = some a) (ha' : as[k]? = some a')
    (hcluster : a.clusterId = a'.clusterId) : i = k := by
  refine (List.getElem?_inj ?_ has).mp ?_
  · rw [List.length_map]
    exact (List.getElem?_eq_some_iff.mp ha).1
  · rw [List.getElem?_map, List.getElem?_map, ha, ha', Option.map_some, Option.map_some, hcluster]

/-- A subject belongs to one check of one run. -/
theorem DistinctClusters.eq_of_subject? (has : DistinctClusters as) (hs₀ : s₀.Keyed)
    (ha : as[i]? = some a) (ha' : as[k]? = some a') (hg : g ∈ s₀.judgements f a.mode a.clusterId)
    (hg' : g' ∈ s₀.judgements f a'.mode a'.clusterId) (hj : g.subject? = some j)
    (hj' : g'.subject? = some j) : i = k ∧ g = g' := by
  obtain ⟨hcluster, hsame⟩ := Store.eq_of_mem_judgements hs₀ hg hg' hj hj'
  obtain rfl := has.eq ha ha' hcluster
  obtain rfl : a = a' := Option.some.inj (ha.symm.trans ha')
  exact ⟨rfl, hsame rfl⟩

namespace Store

/-- Whether the health in a store is what was foretold from another one, when some checks are done: only
the subjects of these have been judged. -/
structure Foretold (f : String → Nat → Reply) (s₀ : Store) (as : List Assignment)
    (done : Nat → List Judgement) (s : Store) : Prop where
  wellFormed : s.WellFormed
  fleet : s.fleet = s₀.fleet
  judged : ∀ (i : Nat) (a : Assignment), as[i]? = some a →
    ∀ g ∈ s₀.judgements f a.mode a.clusterId, g ∈ done i → ∀ j, g.subject? = some j → (s.health? j).map Health.undated = (s₀.health? j).map g.judge
  pending : ∀ (i : Nat) (a : Assignment), as[i]? = some a →
    ∀ g ∈ s₀.judgements f a.mode a.clusterId, g ∉ done i → ∀ j, g.subject? = some j →
      (s.health? j).map Health.undated = (s₀.health? j).map Health.undated
  aside : ∀ j, (∀ a ∈ as, ∀ g ∈ s₀.judgements f a.mode a.clusterId, g.subject? ≠ some j) →
    s.health? j = s₀.health? j

theorem foretold_start (hs₀ : s₀.WellFormed) : Foretold f s₀ as (fun _ => []) s₀ :=
  ⟨hs₀, rfl, fun _ _ _ _ _ hg => absurd hg List.not_mem_nil, fun _ _ _ _ _ _ _ _ => rfl, fun _ _ => rfl⟩

/-- **A settled check judges its subject and leaves all others alone.** -/
theorem Foretold.settle {c : RunSettings} {t : Target} {result : CheckResult} {now : UInt64}
    {report : Report} (hs : Foretold f s₀ as done s) (has : DistinctClusters as) (hs₀ : s₀.Keyed)
    (ha : as[i]? = some a) (hsettled : c.Settled t result now s report s')
    (hg : (⟨c, t.identity, result⟩ : Judgement) ∈ s₀.judgements f a.mode a.clusterId)
    (hnew : (⟨c, t.identity, result⟩ : Judgement) ∉ done i) :
    Foretold f s₀ as (Function.update done i (done i ++ [⟨c, t.identity, result⟩])) s' := by
  have hsubject : (⟨c, t.identity, result⟩ : Judgement).subject? = c.subject? t := rfl
  generalize hnewest : (⟨c, t.identity, result⟩ : Judgement) = newest at hg hnew hsubject
  have hother {j : Subject} (hj : newest.subject? ≠ some j) : s'.health? j = s.health? j := by
    rw [hsettled.health, if_neg (hsubject ▸ hj)]
  have hmem {k : Nat} {g : Judgement} : g ∈ Function.update done i (done i ++ [newest]) k
      ↔ g ∈ done k ∨ k = i ∧ g = newest := by
    by_cases hk : k = i
    · subst hk
      simp
    · simp [hk]
  refine ⟨hsettled.wellFormed hs.wellFormed, hsettled.fleet.trans hs.fleet, ?_, ?_, ?_⟩
  · intro k a' ha' g' hg' hdone j hj
    by_cases hjudged : newest.subject? = some j
    · -- no other check has this subject, so this is the newest one, and the health was still new
      obtain ⟨rfl, rfl⟩ := has.eq_of_subject? hs₀ ha ha' hg hg' hjudged hj
      rw [← hnewest]
      exact hsettled.counted.map_undated_health? (hsubject ▸ hjudged) (hs.pending i a ha newest hg hnew j hj)
    · rcases hmem.mp hdone with hdone | ⟨rfl, rfl⟩
      · rw [hother hjudged]
        exact hs.judged k a' ha' g' hg' hdone j hj
      · exact absurd hj hjudged
  · intro k a' ha' g' hg' hopen j hj
    have hnone : newest.subject? ≠ some j := by
      intro hjudged
      obtain ⟨rfl, rfl⟩ := has.eq_of_subject? hs₀ ha ha' hg hg' hjudged hj
      exact hopen (hmem.mpr (.inr ⟨rfl, rfl⟩))
    rw [hother hnone]
    exact hs.pending k a' ha' g' hg' (fun hdone => hopen (hmem.mpr (.inl hdone))) j hj
  · intro j hj
    rw [hother (hj a (List.mem_of_getElem? ha) newest hg)]
    exact hs.aside j hj

end Store

namespace Service

variable {v v' : Service}

/-- Whether the runs of a service are no further than to a part of what was foreseen at the start. -/
structure Foreseen (f : String → Nat → Reply) (s₀ : Store) (as : List Assignment)
    (done : Nat → List Judgement) (v : Service) : Prop where
  store : Store.Foretold f s₀ as done v.store
  length : v.tasks.length = as.length
  tasks : ∀ (i : Nat) (a : Assignment), as[i]? = some a →
    ∃ state, v.tasks[i]? = some { a.task with state } ∧ a.Stands f s₀ v.clock v.store (done i) state

theorem foreseen_start (hs₀ : s₀.WellFormed) :
    (assigned s₀ as).Foreseen f s₀ as fun _ => [] := by
  refine ⟨Store.foretold_start hs₀, List.length_map _, fun i a ha => ⟨.due, ?_, .due⟩⟩
  show (as.map Assignment.task)[i]? = _
  rw [List.getElem?_map, ha]
  rfl

/-- What is known of a task that a step is about. -/
theorem Foreseen.exists_assignment (hv : v.Foreseen f s₀ as done) {task : Task}
    (ht : v.tasks[i]? = some task) : ∃ a state, as[i]? = some a ∧ task = { a.task with state }
      ∧ a.Stands f s₀ v.clock v.store (done i) state := by
  have hlt : i < as.length := by
    rw [← hv.length]
    exact (List.getElem?_eq_some_iff.mp ht).1
  obtain ⟨state, htask, hstands⟩ := hv.tasks i as[i] (List.getElem?_eq_getElem hlt)
  exact ⟨as[i], state, List.getElem?_eq_getElem hlt, Option.some.inj (ht.symm.trans htask), hstands⟩

/-- One run goes on, and the others stand where they stood. -/
theorem Foreseen.advance (hv : v.Foreseen f s₀ as done) (ha : as[i]? = some a) {state : TaskState}
    {judged : List Judgement} (hs : Store.Foretold f s₀ as (Function.update done i judged) s)
    (hstands : a.Stands f s₀ v.clock s judged state) :
    { v.setTask i { a.task with state } with store := s : Service }.Foreseen f s₀ as
      (Function.update done i judged) := by
  obtain ⟨state₀, htask, -⟩ := hv.tasks i a ha
  refine ⟨hs, ?_, ?_⟩
  · show (v.tasks.set i _).length = as.length
    rw [List.length_set, hv.length]
  · intro k a' ha'
    by_cases hk : k = i
    · subst hk
      obtain rfl : a = a' := Option.some.inj (ha.symm.trans ha')
      refine ⟨state, List.getElem?_set_self (List.getElem?_eq_some_iff.mp htask).1, ?_⟩
      rw [Function.update_self]
      exact hstands
    · obtain ⟨state', htask', hstands'⟩ := hv.tasks k a' ha'
      refine ⟨state', (List.getElem?_set_ne (Ne.symm hk)).trans htask', ?_⟩
      rw [Function.update_of_ne hk]
      exact hstands'.other s

/-- A run that goes on without settling a check changes nothing else. -/
theorem Foreseen.advance_aside (hv : v.Foreseen f s₀ as done) (ha : as[i]? = some a) {state : TaskState}
    (hstands : a.Stands f s₀ v.clock v.store (done i) state) :
    (v.setTask i { a.task with state }).Foreseen f s₀ as done := by
  have hsame : Function.update done i (done i) = done := Function.update_eq_self i done
  have hstore : Store.Foretold f s₀ as (Function.update done i (done i)) v.store := by
    rw [hsame]
    exact hv.store
  have hnext := hv.advance ha hstore hstands
  rw [hsame] at hnext
  exact hnext

theorem Foreseen.wait (hv : v.Foreseen f s₀ as done) {ms : Nat}
    (hdue : ∀ due ∈ v.answersDue, v.clock + ms ≤ due) :
    { v with clock := v.clock + ms : Service }.Foreseen f s₀ as done := by
  refine ⟨hv.store, hv.length, ?_⟩
  intro i a ha
  obtain ⟨state, htask, hstands⟩ := hv.tasks i a ha
  refine ⟨state, htask, hstands.wait fun r hr due hmem => hdue due ?_⟩
  refine List.mem_flatMap.mpr ⟨_, List.mem_of_getElem? htask, List.mem_flatMap.mpr ⟨r, ?_, hmem⟩⟩
  rw [hr]
  exact List.mem_singleton.mpr rfl

theorem Foreseen.begins (hv : v.Foreseen f s₀ as done) (hs₀ : s₀.WellFormed) {now : UInt64}
    (hstep : v.step now (.begin i) = some v') : v'.Foreseen f s₀ as done := by
  obtain ⟨task, ht, hdue, rfl⟩ := begin_eq_some hstep
  obtain ⟨a, state, ha, rfl, hstands⟩ := hv.exists_assignment ht
  obtain rfl : state = .due := hdue
  -- nothing is done yet of a run that is due
  have hnone : done i = [] := by
    generalize done i = judged at hstands
    cases hstands
    rfl
  obtain ⟨hstarts, hrefused⟩ := Assignment.Stands.begun a f v.clock hs₀ hv.store.wellFormed
    hv.store.fleet
  unfold beginRun
  split
  · rename_i resolved hresolve
    exact hv.advance_aside ha (hnone ▸ hstarts resolved hresolve)
  · rename_i e hresolve
    exact hv.advance_aside ha (hnone ▸ hrefused e hresolve)

theorem Foreseen.concludes (hv : v.Foreseen f s₀ as done) (hs₀ : s₀.WellFormed)
    (hf : ∀ ip k, (f ip k).outcome.isSome) {now : UInt64}
    (hstep : v.step now (.conclude i) = some v') : v'.Foreseen f s₀ as done := by
  obtain ⟨task, r, ht, hr, hover, rfl⟩ := conclude_eq_some hstep
  obtain ⟨a, state, ha, rfl, hstands⟩ := hv.exists_assignment ht
  obtain rfl : state = .running r := Task.state_of_run? hr
  exact hv.advance_aside ha (hstands.conclude hs₀ hf hover)

theorem Foreseen.works (hv : v.Foreseen f s₀ as done) (has : DistinctClusters as) (hs₀ : s₀.WellFormed)
    {now : UInt64} {label : RunLabel} (hl : v.Answers f (.work i label))
    (hstep : v.step now (.work i label) = some v') : ∃ done', v'.Foreseen f s₀ as done' := by
  obtain ⟨task, r, store, r', ht, hr, hrun, rfl⟩ := work_eq_some hstep
  have hanswers : r.Answers f label := hl r (by rw [run?, ht]; exact hr)
  obtain ⟨a, state, ha, rfl, hstands⟩ := hv.exists_assignment ht
  obtain rfl : state = .running r := Task.state_of_run? hr
  rcases hstands.work hs₀ hv.store.wellFormed hanswers hrun with
    ⟨rfl, hnext⟩ | ⟨c, t, result, report, hsettled, ⟨rest, hperm⟩, hnext⟩
  · exact ⟨done, hv.advance_aside ha hnext⟩
  · -- no check is foreseen twice, so the newest one is not done already
    have hnodup := hperm.nodup_iff.mpr (Store.nodup_judgements hs₀.keyed f a.mode a.clusterId)
    have hmem := hperm.mem_iff.mp
      (List.mem_append_left rest (List.mem_append_right (done i) List.mem_cons_self))
    have hnew : (⟨c, t.identity, result⟩ : Judgement) ∉ done i := fun hdone =>
      (List.nodup_append.mp (List.nodup_append.mp hnodup).1).2.2 _ hdone _ List.mem_cons_self rfl
    have hforetold := hv.store.settle has hs₀.keyed ha hsettled hmem hnew
    exact ⟨_, hv.advance ha hforetold (hnext fun j hj => hv.store.pending i a ha _ hmem hnew j hj)⟩

/-- **Whatever step is taken next, the runs come out as foreseen.** -/
theorem Foreseen.goes (hv : v.Foreseen f s₀ as done) (has : DistinctClusters as) (hs₀ : s₀.WellFormed)
    (hf : ∀ ip k, (f ip k).outcome.isSome) (h : v.Goes f v') :
    ∃ done', v'.Foreseen f s₀ as done' := by
  obtain ⟨hdue, hpass, hanswers, hstep⟩ := h
  cases hpass
  have hwaited := hv.wait hdue
  rename_i label
  cases label with
  | begin id => exact ⟨done, hwaited.begins hs₀ hstep⟩
  | work id label => exact hwaited.works has hs₀ hanswers hstep
  | conclude id => exact ⟨done, hwaited.concludes hs₀ hf hstep⟩
  | _ => exact hanswers.elim

/-- **Every execution comes out as foreseen**, as far as it gets. -/
theorem Execution.foreseen (h : Execution f (assigned s₀ as) v) (has : DistinctClusters as)
    (hs₀ : s₀.WellFormed) (hf : ∀ ip k, (f ip k).outcome.isSome) :
    ∃ done, v.Foreseen f s₀ as done := by
  induction h with
  | start => exact ⟨_, foreseen_start hs₀⟩
  | step _ hgoes ih =>
    obtain ⟨done, hv⟩ := ih
    exact hv.goes has hs₀ hf hgoes

end Service

end FleetHealth
