import FleetHealth.Proofs.Run.Flipping
import FleetHealth.Proofs.Run.Losses
/-!
# What a run is bound to find

When the answers to probes depend on nothing but the address and the number of the attempt, the checks of
a run are known before it starts. So are its results, and what becomes of the health of each subject,
which at most one of the checks counts for.

* `Store.judgements`, `Store.forecast` — the checks of a run and its results, from the store at its start.
* `Store.judgements_congr` — health and backups have no say in them.
* `Store.eq_of_mem_judgements` — no two checks count for one subject.
* `Run.Course.subject?_ne_of_held` — a subject is judged once.
* `Run.Course.exists_perm_judgements` — what a run has settled is part of it, and in the end all of it.
-/

namespace FleetHealth

/-- A check with its result and the settings by which it is judged. Its target stands without health and
backup. -/
structure Judgement where
  settings : RunSettings
  target : Target
  result : CheckResult

namespace Judgement

/-- Whose health the check counts for. -/
def subject? (g : Judgement) : Option Subject :=
  g.settings.subject? g.target

/-- Health after the check has been recorded, undated. -/
def judge (g : Judgement) (h : Health) : Health :=
  (g.settings.policy.tracker.record h g.result.passed 0).1.undated

/-- The report on the check, if its subject has the health that a store tells. -/
def report (g : Judgement) (s : Store) : Report :=
  { Report.checked g.target g.result with
    transitionedTo := (g.subject?.bind s.health?).bind fun h =>
      (g.settings.policy.tracker.record h g.result.passed 0).2.map (·.isUp) }

end Judgement

/-- The check of a target whose probes a prober answers. -/
def RunSettings.judgement? (c : RunSettings) (f : String → Nat → Reply) (t : Target) : Option Judgement :=
  (checkCourse c.policy (f t.address.ip)).result.map (⟨c, t.identity, ·⟩)

namespace Store

variable {s s' : Store} {f : String → Nat → Reply} {mode mode' : TrackingMode}
  {clusterId clusterId' : UInt64} {g g' : Judgement} {j : Subject}

/-- The checks of a run of a cluster, when a prober answers the probes. -/
def judgements (s : Store) (f : String → Nat → Reply) (mode : TrackingMode) (clusterId : UInt64) :
    List Judgement :=
  match s.resolve clusterId with
  | .ok r =>
    let settings : RunSettings := { policy := r.policy, mode, handlers := standardPipeline }
    (Run.addressed r.targets).filterMap (settings.judgement? f)
  | .error _ => []

/-- The results of a run of a cluster, when a prober answers the probes. -/
def forecast (s : Store) (f : String → Nat → Reply) (mode : TrackingMode) (clusterId : UInt64) :
    Except RunError (List Report) :=
  (s.resolve clusterId).map fun r =>
    (Run.withoutAddress r.targets).map .noAddress
      ++ (s.judgements f mode clusterId).map (·.report s)

theorem judgements_of_resolve {r : Resolved} (h : s.resolve clusterId = .ok r) :
    s.judgements f mode clusterId
      = (Run.addressed r.targets).filterMap
          (RunSettings.judgement? { policy := r.policy, mode, handlers := standardPipeline } f) := by
  rw [judgements, h]

theorem mem_judgements (h : g ∈ s.judgements f mode clusterId) :
    ∃ r t, s.resolve clusterId = .ok r ∧ t ∈ Run.addressed (s.probePlan clusterId)
      ∧ RunSettings.judgement? { policy := r.policy, mode, handlers := standardPipeline } f t = some g := by
  cases hresolve : s.resolve clusterId with
  | error e =>
    rw [judgements, hresolve] at h
    cases h
  | ok r =>
    rw [judgements_of_resolve hresolve] at h
    obtain ⟨t, ht, hg⟩ := List.mem_filterMap.mp h
    rw [(resolve_eq_ok hresolve).2] at ht
    exact ⟨r, t, rfl, ht, hg⟩

/-- Every target is checked once. -/
theorem map_target_judgements {r : Resolved} (hresolve : s.resolve clusterId = .ok r)
    (hf : ∀ ip k, (f ip k).outcome.isSome) (mode : TrackingMode) :
    (s.judgements f mode clusterId).map (·.target) = (Run.addressed r.targets).map Target.identity := by
  rw [judgements_of_resolve hresolve, List.map_filterMap, ← List.filterMap_eq_map']
  apply List.filterMap_congr
  intro t _
  obtain ⟨result, hresult⟩ := Option.isSome_iff_exists.mp
    (Attempt.isSome_checkCourse (hf t.address.ip) (one_le_maxAttempts hresolve))
  rw [RunSettings.judgement?, hresult]
  rfl

/-! ## Stores of one fleet -/

theorem map_withoutAddress_congr {plan plan' : List (Node × Option Address)}
    (h : plan.map (Prod.map Node.identity (Option.map Address.identity))
      = plan'.map (Prod.map Node.identity (Option.map Address.identity))) :
    (Run.withoutAddress plan).map Report.noAddress = (Run.withoutAddress plan').map Report.noAddress := by
  have hplan (plan : List (Node × Option Address)) :
      (Run.withoutAddress plan).map Report.noAddress
        = (Run.withoutAddress (plan.map (Prod.map Node.identity (Option.map Address.identity)))).map
            Report.noAddress := by
    rw [Run.withoutAddress, Run.withoutAddress, List.filterMap_map, List.map_filterMap, List.map_filterMap]
    congr 1
    funext ⟨n, a⟩
    cases a <;> rfl
  rw [hplan plan, h, ← hplan plan']

theorem filterMap_judgement?_identity (c : RunSettings) (ts : List Target) :
    ts.filterMap (c.judgement? f) = (ts.map Target.identity).filterMap (c.judgement? f) := by
  rw [List.filterMap_map]
  rfl

/-- **Stores of one fleet lead to the same checks.** -/
theorem judgements_congr (hs : s.WellFormed) (hs' : s'.WellFormed) (h : s.fleet = s'.fleet) :
    s.judgements f mode clusterId = s'.judgements f mode clusterId := by
  rw [judgements, judgements, resolve_of_decodes (hs.decodes .nodes) (hs.decodes .addresses),
    resolve_of_decodes (hs'.decodes .nodes) (hs'.decodes .addresses), resolvePolicy_congr h]
  cases s'.resolvePolicy clusterId with
  | error e => rfl
  | ok p =>
    simp only [Except.map]
    rw [filterMap_judgement?_identity, map_addressed_congr (probePlan_congr h clusterId),
      ← filterMap_judgement?_identity]

theorem resolve_error_congr (hs : s.WellFormed) (hs' : s'.WellFormed) (h : s.fleet = s'.fleet)
    {e : RunError} (hresolve : s.resolve clusterId = .error e) : s'.resolve clusterId = .error e := by
  rw [resolve_of_decodes (hs.decodes .nodes) (hs.decodes .addresses), resolvePolicy_congr h] at hresolve
  rw [resolve_of_decodes (hs'.decodes .nodes) (hs'.decodes .addresses)]
  cases hpolicy : s'.resolvePolicy clusterId with
  | error e' =>
    rw [hpolicy] at hresolve
    exact congrArg Except.error (Except.error.inj hresolve)
  | ok p =>
    rw [hpolicy] at hresolve
    cases hresolve

theorem resolve_ok_congr (hs' : s'.WellFormed) (h : s.fleet = s'.fleet)
    {r : Resolved} (hresolve : s.resolve clusterId = .ok r) :
    ∃ r', s'.resolve clusterId = .ok r' ∧ r'.policy = r.policy
      ∧ r'.targets.map (Prod.map Node.identity (Option.map Address.identity))
        = r.targets.map (Prod.map Node.identity (Option.map Address.identity)) := by
  obtain ⟨hpolicy, htargets⟩ := resolve_eq_ok hresolve
  refine ⟨⟨r.cluster, r.policy, s'.probePlan clusterId⟩, ?_, rfl, ?_⟩
  · rw [resolve_of_decodes (hs'.decodes .nodes) (hs'.decodes .addresses), ← resolvePolicy_congr h, hpolicy]
    rfl
  · rw [htargets]
    exact (probePlan_congr h clusterId).symm

/-! ## One check a subject -/

/-- Checks that count for one subject are checks of one node. -/
theorem node_id_eq_of_subject? {c c' : RunSettings} {t t' : Target} (ht : t.Rooted s) (ht' : t'.Rooted s)
    (hj : c.subject? t = some j) (hj' : c'.subject? t' = some j) : t.node.id = t'.node.id := by
  cases j with
  | address id =>
    apply ht.node_id_eq ht'
    rw [RunSettings.subject?_eq_address hj, RunSettings.subject?_eq_address hj']
  | node id => rw [RunSettings.subject?_eq_node hj, RunSettings.subject?_eq_node hj']

/-- No check is made twice. -/
theorem nodup_judgements (hs : s.Keyed) (f : String → Nat → Reply) (mode : TrackingMode)
    (clusterId : UInt64) : (s.judgements f mode clusterId).Nodup := by
  cases hresolve : s.resolve clusterId with
  | error e =>
    rw [judgements, hresolve]
    exact .nil
  | ok r =>
    rw [judgements_of_resolve hresolve, (resolve_eq_ok hresolve).2]
    refine (pairwise_address_addressed hs clusterId).filterMap _ fun t t' hne g hg g' hg' he => hne ?_
    obtain ⟨result, -, rfl⟩ := Option.map_eq_some_iff.mp hg
    obtain ⟨result', -, rfl⟩ := Option.map_eq_some_iff.mp hg'
    exact congrArg (fun g : Judgement => g.target.address.id) he

/-- **No two checks count for one subject**, be they of one run or of runs of different clusters. -/
theorem eq_of_mem_judgements (hs : s.Keyed) (hg : g ∈ s.judgements f mode clusterId)
    (hg' : g' ∈ s.judgements f mode' clusterId') (hj : g.subject? = some j) (hj' : g'.subject? = some j) :
    clusterId = clusterId' ∧ (mode = mode' → g = g') := by
  obtain ⟨r, t, hresolve, ht, htg⟩ := mem_judgements hg
  obtain ⟨r', t', hresolve', ht', htg'⟩ := mem_judgements hg'
  obtain ⟨result, -, rfl⟩ := Option.map_eq_some_iff.mp htg
  obtain ⟨result', -, rfl⟩ := Option.map_eq_some_iff.mp htg'
  have hid : t.node.id = t'.node.id :=
    node_id_eq_of_subject? (rooted_of_mem_addressed hs ht) (rooted_of_mem_addressed hs ht') hj hj'
  have hnode : t.node = t'.node := by
    have hrecord := (records_of_mem_addressed hs ht).1
    rw [hid, (records_of_mem_addressed hs ht').1] at hrecord
    exact (Option.some.inj hrecord).symm
  -- one node is in one cluster, so both checks are of the same run
  have hcluster : clusterId = clusterId' := by
    rw [← (records_of_mem_addressed hs ht).2.2.2, hnode, (records_of_mem_addressed hs ht').2.2.2]
  refine ⟨hcluster, ?_⟩
  intro hmode
  subst hcluster hmode
  obtain rfl : t = t' := Run.eq_of_node_id_eq hs ht ht' hid
  obtain rfl : r = r' := Except.ok.inj (hresolve.symm.trans hresolve')
  exact Option.some.inj (htg.symm.trans htg')

end Store

/-! ## Settling what was foreseen -/

namespace RunSettings

variable {c : RunSettings} {t : Target} {result : CheckResult} {now : UInt64} {s₀ s s' : Store}
  {report : Report} {j : Subject}

/-- A subject that is judged for the first time gets the health that was foreseen. -/
theorem Counted.map_undated_health? (h : c.Counted t result now s report s') (hj : c.subject? t = some j)
    (hsame : (s.health? j).map Health.undated = (s₀.health? j).map Health.undated) :
    (s'.health? j).map Health.undated
      = (s₀.health? j).map (⟨c, t.identity, result⟩ : Judgement).judge := by
  have hjudge : (⟨c, t.identity, result⟩ : Judgement).judge
      = (⟨c, t.identity, result⟩ : Judgement).judge ∘ Health.undated :=
    funext fun h => (Tracker.undated_record c.policy.tracker h result.passed 0 0).symm
  have hrecord : (fun h => (c.policy.tracker.record h result.passed now).1.undated)
      = (⟨c, t.identity, result⟩ : Judgement).judge ∘ Health.undated :=
    funext fun h => (Tracker.undated_record c.policy.tracker h result.passed now 0).symm
  rw [h.health, if_pos hj, Option.map_map]
  show (s.health? j).map (fun h => (c.policy.tracker.record h result.passed now).1.undated) = _
  rw [hrecord, ← Option.map_map, hsame, Option.map_map, ← hjudge]

/-- The first check of a subject is reported as foreseen, but for the handlers that failed. -/
theorem Counted.unblamed_eq_report (h : c.Counted t result now s report s')
    (hsame : ∀ j, c.subject? t = some j →
      (s.health? j).map Health.undated = (s₀.health? j).map Health.undated) :
    report.unblamed = (⟨c, t.identity, result⟩ : Judgement).report s₀ := by
  have htransition : (((c.subject? t).bind s.health?).bind fun h =>
        (c.policy.tracker.record h result.passed now).2.map (·.isUp))
      = ((⟨c, t.identity, result⟩ : Judgement).report s₀).transitionedTo := by
    show _ = ((c.subject? t).bind s₀.health?).bind _
    cases hj : c.subject? t with
    | none => rfl
    | some j =>
      -- dates have no say in the transition, and nothing else has changed since
      have hundated (u : Store) (now : UInt64) :
          ((u.health? j).bind fun h => (c.policy.tracker.record h result.passed now).2.map (·.isUp))
            = ((u.health? j).map Health.undated).bind fun h =>
                (c.policy.tracker.record h result.passed 0).2.map (·.isUp) := by
        cases u.health? j with
        | none => rfl
        | some h => exact (Tracker.map_isUp_record_undated c.policy.tracker h result.passed now 0).symm
      rw [Option.bind_some, Option.bind_some, hundated, hsame j hj, ← hundated]
  rw [h.unblamed_eq, htransition]
  rfl

/-- The first check of a subject is reported as foreseen. -/
theorem Settled.report_eq (h : c.Settled t result now s report s') (hs : s.WellFormed)
    (hsame : ∀ j, c.subject? t = some j →
      (s.health? j).map Health.undated = (s₀.health? j).map Health.undated) :
    report = (⟨c, t.identity, result⟩ : Judgement).report s₀ := by
  rw [← h.counted.unblamed_eq_report hsame, Report.unblamed, ← h.failedHandlers hs]

end RunSettings

/-! ## Runs that come out as foreseen -/

namespace Run

variable {s₀ s : Store} {f : String → Nat → Reply} {others : Store → Store → Prop} {clusterId : UInt64}
  {resolved : Resolved} {poolSize : Nat} {mode : TrackingMode} {h : List Happening} {r : Run}

/-- **While a worker holds a target, no settled check counts for the subject of it.** -/
theorem Course.subject?_ne_of_held {handlers : List Handler} {ledger : Option Store} (hs : s₀.Keyed)
    (hresolve : s₀.resolve clusterId = .ok resolved)
    (hcourse : Course others s₀ (Run.start resolved poolSize mode handlers ledger) h s r) {t : Target}
    (ht : t ∈ r.held) {c : RunSettings} {j : Subject} (hj : c.subject? t = some j) :
    ∀ x ∈ settledOf h, c.subject? x.1 ≠ some j := by
  have hfresh := fresh_start resolved poolSize mode handlers ledger
  have hledger := hcourse.ledger hfresh
  have htargets := hledger.perm_targets hfresh
  have hdistinct := hledger.distinct (distinct_start hs hresolve poolSize mode handlers ledger)
  have hmem {t : Target} (ht : t ∈ r.dispatched) : t ∈ addressed (s₀.probePlan clusterId) := by
    rw [hledger.dispatched] at ht
    rw [← (Store.resolve_eq_ok hresolve).2]
    exact ht
  intro x hx hj'
  -- a settled check of the same subject would be one of the same target, which is held only once
  have ht₀ := hmem (htargets.mem_iff.mp (List.mem_append_right _ (List.mem_append_left _ ht)))
  have ht₀' := hmem (hledger.mem_dispatched_of_settled hfresh hx)
  have hnode := Store.node_id_eq_of_subject? (Store.rooted_of_mem_addressed hs ht₀)
    (Store.rooted_of_mem_addressed hs ht₀') hj hj'
  obtain rfl := eq_of_node_id_eq hs ht₀ ht₀' hnode
  have hnodup := htargets.nodup_iff.mpr hdistinct.nodup
  exact (List.nodup_append.mp hnodup).2.2 x.1 (List.mem_map_of_mem hx) x.1
    (List.mem_append_left _ ht) rfl

/-- The checks that a run has settled. -/
def judged (r : Run) (h : List Happening) : List Judgement :=
  (settledOf h).map fun x => ⟨r.settings, x.1.identity, x.2⟩

theorem Follows.filterMap_judgement? (hfollows : Follows (fun t => f t.address.ip) h r) :
    ((settledOf h).map (·.1)).filterMap (r.settings.judgement? f) = r.judged h := by
  rw [List.filterMap_map, judged, ← List.filterMap_eq_map']
  apply List.filterMap_congr
  intro x hx
  show (checkCourse r.settings.policy (f x.1.address.ip)).result.map _ = _
  rw [hfollows.settled x hx]
  rfl

section Foreseen

variable (hresolve : s₀.resolve clusterId = .ok resolved)
  (hcourse : Course others s₀ (Run.start resolved poolSize mode standardPipeline none) h s r)
  (hagrees : Agrees (fun t => f t.address.ip) h)

include hresolve hcourse hagrees

omit hagrees in
theorem Course.judgements_eq :
    s₀.judgements f mode clusterId = r.dispatched.filterMap (r.settings.judgement? f) := by
  have hledger := hcourse.ledger (fresh_start _ _ _ _ _)
  rw [Store.judgements_of_resolve hresolve, hledger.dispatched, hledger.settings]
  rfl

/-- **What a run has settled is part of what it is bound to settle.** -/
theorem Course.exists_perm_judgements :
    ∃ rest, (r.judged h ++ rest).Perm (s₀.judgements f mode clusterId) := by
  have hledger := hcourse.ledger (fresh_start _ _ _ _ _)
  have hfollows := hcourse.follows (fresh_start _ _ _ _ _) (Store.one_le_maxAttempts hresolve) hagrees
  have hperm := (hledger.perm_targets (fresh_start _ _ _ _ _)).filterMap (r.settings.judgement? f)
  rw [List.filterMap_append, hfollows.filterMap_judgement?,
    ← Course.judgements_eq hresolve hcourse] at hperm
  exact ⟨_, hperm⟩

/-- **In the end a run whose probes are all answered has settled all that it is bound to settle.** -/
theorem Course.perm_judgements (hs : s₀.Keyed) (hf : ∀ ip k, (f ip k).outcome.isSome)
    (hover : r.isOver) : (r.judged h).Perm (s₀.judgements f mode clusterId) := by
  have hfollows := hcourse.follows (fresh_start _ _ _ _ _) (Store.one_le_maxAttempts hresolve) hagrees
  have hledger := hcourse.ledger (fresh_start _ _ _ _ _)
  have hperm := (hledger.perm_dispatched (fresh_start _ _ _ _ _)
    (hledger.distinct (distinct_start hs hresolve _ _ _ _))).filterMap (r.settings.judgement? f)
  rw [Course.unsettled_eq_nil hs hresolve hcourse hagrees (fun t => hf t.address.ip) hover,
    List.nil_append, hfollows.filterMap_judgement?, ← Course.judgements_eq hresolve hcourse] at hperm
  exact hperm

/-- **A run comes out as foreseen**, if its reports are those that were foreseen. -/
theorem Course.perm_results (hs : s₀.Keyed) (hf : ∀ ip k, (f ip k).outcome.isSome) (hover : r.isOver)
    {u : Store} (hreports : r.reports = (r.judged h).map (·.report u)) :
    r.results.Perm ((withoutAddress resolved.targets).map .noAddress
      ++ (s₀.judgements f mode clusterId).map (·.report u)) := by
  have hunaddressed : r.unaddressed = withoutAddress resolved.targets :=
    (hcourse.ledger (fresh_start _ _ _ _ _)).unaddressed
  rw [results_eq, Course.unsettled_eq_nil hs hresolve hcourse hagrees (fun t => hf t.address.ip) hover,
    hreports, hunaddressed, List.map_nil, List.append_nil]
  exact ((Course.perm_judgements hresolve hcourse hagrees hs hf hover).map _).append_left _

end Foreseen

end Run

end FleetHealth
