import FleetHealth.Proofs.Monitor.Ending
/-!
# The schedule has no say

Runs of different clusters that share a store come to their end however their steps are interleaved, with
whatever pools, and always with the same results and the same health: those that come of checking the
targets one after another.

* `Service.Foreseen.outcomes_eq`, `Service.Foreseen.mem_done` — in the end everything is as foreseen.
* `Service.schedule_independent` — how executions come out, and that they do.
-/

namespace FleetHealth

/-- How the run of a task came out, if it is over, in no order. -/
def Task.outcome? (t : Task) : Option (Except RunError (Multiset Report)) :=
  match t.state with
  | .finished outcome => some (outcome.map Multiset.ofList)
  | _ => none

/-- What is to be run, whatever the pool. -/
def Assignment.demand (a : Assignment) : UInt64 × TrackingMode :=
  (a.clusterId, a.mode)

namespace Service

variable {f : String → Nat → Reply} {s₀ s : Store} {as as' : List Assignment}
  {done : Nat → List Judgement} {i : Nat} {v v' : Service} {a : Assignment} {g : Judgement} {j : Subject}

/-- How the runs of a service came out. -/
def outcomes (v : Service) : List (Option (Except RunError (Multiset Report))) :=
  v.tasks.map Task.outcome?

/-! ## Executions that are over -/

/-- Where a run stands that is over. -/
theorem Foreseen.finished (hv : v.Foreseen f s₀ as done) (hover : v.IsOver) (ha : as[i]? = some a) :
    (done i).Perm (s₀.judgements f a.mode a.clusterId)
      ∧ (v.tasks[i]?.map Task.outcome?)
        = some (some ((s₀.forecast f a.mode a.clusterId).map Multiset.ofList)) := by
  obtain ⟨state, ht, hstands⟩ := hv.tasks i a ha
  obtain ⟨outcome, hstate⟩ := hover _ (List.mem_of_getElem? ht)
  obtain rfl : state = .finished outcome := hstate
  generalize done i = judged at hstands ⊢
  cases hstands with
  | finished hdone houtcome =>
    rw [ht]
    exact ⟨hdone, congrArg (fun o => some (some o)) houtcome⟩

/-- In the end all that was foreseen is done. -/
theorem Foreseen.mem_done (hv : v.Foreseen f s₀ as done) (hover : v.IsOver) (ha : as[i]? = some a)
    (hg : g ∈ s₀.judgements f a.mode a.clusterId) : g ∈ done i :=
  (hv.finished hover ha).1.mem_iff.mpr hg

/-- **In the end every run has come out as foreseen.** -/
theorem Foreseen.outcomes_eq (hv : v.Foreseen f s₀ as done) (hover : v.IsOver) :
    v.outcomes = as.map fun a => some ((s₀.forecast f a.mode a.clusterId).map Multiset.ofList) := by
  refine List.ext_getElem? ?_
  intro i
  rw [outcomes, List.getElem?_map, List.getElem?_map]
  cases ha : as[i]? with
  | some a => exact (hv.finished hover ha).2
  | none =>
    have hnone : v.tasks[i]? = none := by
      rw [List.getElem?_eq_none_iff] at ha ⊢
      rw [hv.length]
      exact ha
    rw [hnone]
    rfl

theorem Foreseen.health_eq (hv : v.Foreseen f s₀ as done) (hover : v.IsOver) (ha : a ∈ as)
    (hg : g ∈ s₀.judgements f a.mode a.clusterId) (hj : g.subject? = some j) :
    (v.store.health? j).map Health.undated = (s₀.health? j).map g.judge := by
  obtain ⟨i, hi⟩ := List.getElem?_of_mem ha
  exact hv.store.judged i a hi g hg (hv.mem_done hover hi hg) j hj

/-! ## Executions of the same demands -/

theorem exists_mem_of_demand (hsame : as'.map Assignment.demand = as.map Assignment.demand) (ha : a ∈ as) :
    ∃ a' ∈ as', a'.clusterId = a.clusterId ∧ a'.mode = a.mode := by
  have hmem : a.demand ∈ as'.map Assignment.demand := hsame ▸ List.mem_map_of_mem ha
  obtain ⟨a', ha', hdemand⟩ := List.mem_map.mp hmem
  exact ⟨a', ha', congrArg Prod.fst hdemand, congrArg Prod.snd hdemand⟩

theorem distinctClusters_congr (hsame : as'.map Assignment.demand = as.map Assignment.demand)
    (has : DistinctClusters as) : DistinctClusters as' := by
  have hclusters := congrArg (List.map Prod.fst) hsame
  rw [List.map_map, List.map_map] at hclusters
  have hnodup : (as.map (Prod.fst ∘ Assignment.demand)).Nodup := has
  rw [← hclusters] at hnodup
  exact hnodup

/-- Executions of the same demands leave the same health. -/
theorem Foreseen.health_congr {done' : Nat → List Judgement} (hv : v.Foreseen f s₀ as done)
    (hover : v.IsOver) (hv' : v'.Foreseen f s₀ as' done') (hover' : v'.IsOver)
    (hsame : as'.map Assignment.demand = as.map Assignment.demand) (j : Subject) :
    (v'.store.health? j).map Health.undated = (v.store.health? j).map Health.undated := by
  by_cases hjudged : ∃ a ∈ as, ∃ g ∈ s₀.judgements f a.mode a.clusterId, g.subject? = some j
  · obtain ⟨a, ha, g, hg, hj⟩ := hjudged
    obtain ⟨a', ha', hcluster, hmode⟩ := exists_mem_of_demand hsame ha
    rw [hv.health_eq hover ha hg hj]
    rw [← hcluster, ← hmode] at hg
    rw [hv'.health_eq hover' ha' hg hj]
  · -- nobody's check counts for the subject in either execution
    have haside : ∀ a ∈ as, ∀ g ∈ s₀.judgements f a.mode a.clusterId, g.subject? ≠ some j :=
      fun a ha g hg hj => hjudged ⟨a, ha, g, hg, hj⟩
    have haside' : ∀ a ∈ as', ∀ g ∈ s₀.judgements f a.mode a.clusterId, g.subject? ≠ some j := by
      intro a' ha' g hg
      obtain ⟨a, ha, hcluster, hmode⟩ := exists_mem_of_demand hsame.symm ha'
      rw [← hcluster, ← hmode] at hg
      exact haside a ha g hg
    rw [hv.store.aside j haside, hv'.store.aside j haside']

/-- **The schedule has no say.** Every execution comes to its end: it neither goes on for ever nor gets
stuck. In the end each run has the results that were foreseen, the health of the subject of each check has
been judged by its result once, and all other health is what it was. Every target has its check. So
executions with other pools, interleaved in another way, come out the same. -/
theorem schedule_independent (hs₀ : s₀.WellFormed) (hf : ∀ ip k, (f ip k).outcome.isSome)
    (has : DistinctClusters as) :
    (∀ v, Execution f (assigned s₀ as) v →
      Acc (fun next now => now.Goes f next) v ∧ (v.IsOver ∨ ∃ v', v.Goes f v'))
    ∧ (∀ a ∈ as, ∀ r, s₀.resolve a.clusterId = .ok r →
      (s₀.judgements f a.mode a.clusterId).map (·.target)
        = (Run.addressed r.targets).map Target.identity)
    ∧ ∀ v, Execution f (assigned s₀ as) v → v.IsOver →
      v.outcomes
        = as.map (fun a => some ((s₀.forecast f a.mode a.clusterId).map Multiset.ofList))
      ∧ (∀ a ∈ as, ∀ g ∈ s₀.judgements f a.mode a.clusterId, ∀ j, g.subject? = some j →
        (v.store.health? j).map Health.undated = (s₀.health? j).map g.judge)
      ∧ (∀ j, (∀ a ∈ as, ∀ g ∈ s₀.judgements f a.mode a.clusterId, g.subject? ≠ some j) →
        v.store.health? j = s₀.health? j)
      ∧ ∀ as' v', as'.map Assignment.demand = as.map Assignment.demand →
        Execution f (assigned s₀ as') v' → v'.IsOver →
        v'.outcomes = v.outcomes
          ∧ ∀ j, (v'.store.health? j).map Health.undated = (v.store.health? j).map Health.undated := by
  refine ⟨?_, fun a _ r hresolve => Store.map_target_judgements hresolve hf a.mode,
    ?_⟩
  · intro v h
    obtain ⟨done, hv⟩ := h.foreseen has hs₀ hf
    refine ⟨hv.acc_goes has hs₀ hf, ?_⟩
    by_cases hover : v.IsOver
    · exact .inl hover
    · exact .inr (hv.exists_goes hover)
  · intro v h hover
    obtain ⟨done, hv⟩ := h.foreseen has hs₀ hf
    refine ⟨hv.outcomes_eq hover, fun a ha g hg j hj => hv.health_eq hover ha hg hj, hv.store.aside,
      ?_⟩
    intro as' v' hsame h' hover'
    obtain ⟨done', hv'⟩ := h'.foreseen (distinctClusters_congr hsame has) hs₀ hf
    refine ⟨?_, hv.health_congr hover hv' hover' hsame⟩
    -- the pool is no part of what is foreseen
    have houtcomes (as : List Assignment) :
        as.map (fun a => some ((s₀.forecast f a.mode a.clusterId).map Multiset.ofList))
          = (as.map Assignment.demand).map fun d =>
              some ((s₀.forecast f d.2 d.1).map Multiset.ofList) := by
      rw [List.map_map]
      rfl
    rw [hv.outcomes_eq hover, hv'.outcomes_eq hover', houtcomes, houtcomes, hsame]

/-- A prober that fails every attempt on one address, and passes all others at once. -/
def failsOn (ip : String) : String → Nat → Reply :=
  fun ip' _ => ⟨0, some ⟨ip' != ip, none⟩⟩

/-- Two runs of the small fleet with different pools come out the same, with one address down. -/
theorem schedule_independent_smallStore : ∃ v v',
    Execution (failsOn "10.0.0.1") (assigned smallStore [⟨1, 1, .address⟩]) v ∧ v.IsOver
    ∧ Execution (failsOn "10.0.0.1") (assigned smallStore [⟨1, 2, .address⟩]) v' ∧ v'.IsOver
    ∧ v'.outcomes = v.outcomes
    ∧ (v.store.health? (.address 1)).map Health.undated
      = (v'.store.health? (.address 1)).map Health.undated
    ∧ (v.store.health? (.address 1)).map (·.isUp) = some false := by
  have hs := Store.wellFormed_smallStore
  have hf : ∀ ip k, (failsOn "10.0.0.1" ip k).outcome.isSome := fun _ _ => rfl
  have hone (poolSize : Nat) : DistinctClusters [⟨1, poolSize, .address⟩] := List.nodup_singleton _
  obtain ⟨v, h, hover⟩ := (Execution.start (f := failsOn "10.0.0.1")).exists_isOver (hone 1) hs hf
  obtain ⟨v', h', hover'⟩ := (Execution.start (f := failsOn "10.0.0.1")).exists_isOver (hone 2) hs hf
  obtain ⟨-, -, hends⟩ := schedule_independent hs hf (hone 1)
  obtain ⟨-, hjudged, -, hsame⟩ := hends v h hover
  obtain ⟨houtcomes, hhealth⟩ := hsame [⟨1, 2, .address⟩] v' rfl h' hover'
  refine ⟨v, v', h, hover, h', hover', houtcomes, (hhealth _).symm, ?_⟩
  have hg : (⟨⟨smallSnapshot, .address, standardPipeline⟩, (smallTarget 1 "10.0.0.1").identity,
      { passed := false, reason := some unknownReason, elapsed := 0, attempts := 1 }⟩ : Judgement)
      ∈ smallStore.judgements (failsOn "10.0.0.1") .address 1 := by
    rw [Store.judgements_of_resolve Store.resolve_smallStore]
    exact List.mem_cons_self
  have hdown := hjudged _ List.mem_cons_self _ hg (.address 1) rfl
  rw [(Store.mem_addressed_of_smallPlan hs.keyed Store.resolve_smallStore).2] at hdown
  have hup : (v.store.health? (.address 1)).map (·.isUp)
      = ((v.store.health? (.address 1)).map Health.undated).map (·.isUp) := by
    rw [Option.map_map]
    rfl
  rw [hup, hdown]
  rfl

end Service

end FleetHealth
