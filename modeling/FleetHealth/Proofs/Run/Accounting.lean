import FleetHealth.Proofs.Probe.Retrying
import FleetHealth.Proofs.Run.Judging
import FleetHealth.Proofs.Run.Probing
import FleetHealth.Proofs.Run.Progress
import FleetHealth.Proofs.Run.Replay
import FleetHealth.Proofs.Run.Results
import Mathlib.Data.List.Forall2
/-!
# All or complete

A run of a cluster is refused before anything happens, or it comes to an end with one entry for every
node of the cluster that is switched on, whatever its workers go through.

* `Run.Entry` — the three kinds of entries, and when each is given.
* `Run.allOrComplete` — how runs of a cluster come out, and that they do.
-/

namespace FleetHealth

namespace Run

variable {r₀ r : Run} {h : List Happening} {s s' : Store} {n : Node} {t : Target} {clusterId : UInt64}
  {resolved : Resolved} {poolSize : Nat} {mode : TrackingMode}

/-- A run of a cluster on its own, from one store to another: what happened and how it came out. It is
refused if the cluster cannot be resolved, and else goes on until it is over. -/
inductive Performs (s : Store) (clusterId : UInt64) (poolSize : Nat) (mode : TrackingMode) :
    List Happening → Except RunError (List Report) → Store → Prop
  | refused {e : RunError} : s.resolve clusterId = .error e →
    Performs s clusterId poolSize mode [] (.error e) s
  | finished {resolved : Resolved} {h : List Happening} {s' : Store} {r : Run} :
    s.resolve clusterId = .ok resolved →
    Solo s (start resolved poolSize mode standardPipeline none) h s' r → r.isOver →
    Performs s clusterId poolSize mode h (.ok r.results) s'

/-- The entry for a node in the results of a run from one store to another: a report, and what has to be so
for it to be given. -/
inductive Entry (s s' : Store) (p : PolicySnapshot) (h : List Happening) (n : Node) (report : Report) :
    Prop
  /-- The node has no address to probe it on. Its health is what it was. -/
  | noAddress : s.eligibleAddresses n = [] → report.TellsUnchecked n none "no address available" →
    s'.health? (.node n.id) = s.health? (.node n.id) → Entry s s' p h n report
  /-- No worker completed the check of its target. Its health, and that of its address, is what it was. -/
  | aborted {a : Address} : s.probeAddress? n = some a → (∀ result, (⟨n, a⟩, result) ∉ settledOf h) →
    report.TellsUnchecked n (some a) "health check worker aborted" →
    s'.health? (.node n.id) = s.health? (.node n.id) →
    s'.health? (.address a.id) = s.health? (.address a.id) → Entry s s' p h n report
  /-- Its target was settled, with the result of retrying it as long as the answers asked for that. -/
  | checked {a : Address} {result : CheckResult} : s.probeAddress? n = some a →
    (⟨n, a⟩, result) ∈ settledOf h → (checkCourse p (repliesTo h ⟨n, a⟩)).result = some result →
    RetryLaw p (repliesTo h ⟨n, a⟩) (checkCourse p (repliesTo h ⟨n, a⟩)) result →
    report.TellsResult ⟨n, a⟩ result → Entry s s' p h n report

/-! ## The nodes of a plan -/

theorem perm_plan (plan : List (Node × Option Address)) :
    (withoutAddress plan ++ (addressed plan).map (·.node)).Perm (plan.map (·.1)) := by
  induction plan with
  | nil => exact .refl _
  | cons entry plan ih =>
    obtain ⟨n, _ | a⟩ := entry
    · exact ih.cons n
    · exact List.perm_middle.trans (ih.cons n)

theorem mem_withoutAddress_probePlan :
    n ∈ withoutAddress (s.probePlan clusterId)
      ↔ n ∈ s.enabledNodes clusterId ∧ s.probeAddress? n = none := by
  simp only [withoutAddress, Store.probePlan, List.filterMap_map, List.mem_filterMap,
    Function.comp_apply, Option.ite_none_right_eq_some, Option.isNone_iff_eq_none]
  constructor
  · rintro ⟨n', hn', hnone, he⟩
    cases he
    exact ⟨hn', hnone⟩
  · rintro ⟨hn, hnone⟩
    exact ⟨n, hn, hnone, rfl⟩

/-! ## Entries -/

section Finished

variable (hs : s.Keyed) (hresolve : s.resolve clusterId = .ok resolved)
  (hcourse : Solo s (start resolved poolSize mode standardPipeline none) h s' r)

include hcourse

/-- A node keeps its health unless a check of it was settled. -/
theorem health_node_eq (hn : ∀ t result, (t, result) ∈ settledOf h → t.node.id ≠ n.id) :
    s'.health? (.node n.id) = s.health? (.node n.id) :=
  hcourse.health_eq (fresh_start _ _ _ _ _) (storeBacked_start _ _ _) fun x hx hsubject =>
    hn x.1 x.2 hx (RunSettings.subject?_eq_node hsubject)

/-- An address keeps its health unless a check of it was settled. -/
theorem health_address_eq {a : Address}
    (ha : ∀ t result, (t, result) ∈ settledOf h → t.address.id ≠ a.id) :
    s'.health? (.address a.id) = s.health? (.address a.id) :=
  hcourse.health_eq (fresh_start _ _ _ _ _) (storeBacked_start _ _ _) fun x hx hsubject =>
    ha x.1 x.2 hx (RunSettings.subject?_eq_address hsubject)

include hresolve

theorem dispatched_eq : r.dispatched = addressed (s.probePlan clusterId) := by
  rw [(hcourse.ledger (fresh_start _ _ _ _ _)).dispatched, ← (Store.resolve_eq_ok hresolve).2]
  rfl

theorem mem_addressed_of_settled {result : CheckResult} (ht : (t, result) ∈ settledOf h) :
    t ∈ addressed (s.probePlan clusterId) := by
  rw [← dispatched_eq hresolve hcourse]
  exact (hcourse.ledger (fresh_start _ _ _ _ _)).mem_dispatched_of_settled (fresh_start _ _ _ _ _) ht

include hs

theorem distinct_of_solo : r.Distinct :=
  (hcourse.ledger (fresh_start _ _ _ _ _)).distinct (distinct_start hs hresolve _ _ _ _)

theorem entry_of_unaddressed (hn : n ∈ r.unaddressed) :
    Entry s s' resolved.policy h n (.noAddress n) := by
  rw [(hcourse.ledger (fresh_start _ _ _ _ _)).unaddressed] at hn
  have hplan : n ∈ withoutAddress (s.probePlan clusterId) := (Store.resolve_eq_ok hresolve).2 ▸ hn
  obtain ⟨henabled, hnone⟩ := mem_withoutAddress_probePlan.mp hplan
  refine .noAddress (Store.probeAddress?_eq_none_iff.mp hnone) (Report.tellsUnchecked_noAddress n)
    (health_node_eq hcourse ?_)
  intro t result ht hid
  have htarget := mem_addressed_of_settled hresolve hcourse ht
  have hnode : t.node = n := by
    have hrecord := (hs.mem_records_iff (c := .nodes)).mp (Store.mem_enabledNodes.mp henabled).1
    rw [← hid, (Store.records_of_mem_addressed hs htarget).1] at hrecord
    exact Option.some.inj hrecord
  have hsome := (Store.mem_addressed_probePlan.mp htarget).2
  rw [hnode, hnone] at hsome
  cases hsome

theorem entry_of_unsettled (ht : t ∈ r.unsettled) :
    Entry s s' resolved.policy h t.node (.aborted t) := by
  have hledger := hcourse.ledger (fresh_start _ _ _ _ _)
  have hdistinct := distinct_of_solo hs hresolve hcourse
  obtain ⟨hdispatched, hnone⟩ := (hledger.mem_unsettled_iff (fresh_start _ _ _ _ _) hdistinct).mp ht
  have htarget := hdispatched
  rw [dispatched_eq hresolve hcourse] at htarget
  refine .aborted (Store.mem_addressed_probePlan.mp htarget).2 hnone (Report.tellsUnchecked_aborted t)
    (health_node_eq hcourse ?_)
    (health_address_eq hcourse ?_)
  · intro t' result ht' hid
    obtain rfl := eq_of_node_id_eq hs (mem_addressed_of_settled hresolve hcourse ht') htarget hid
    exact hnone result ht'
  · intro t' result ht' hid
    obtain rfl := eq_of_address_id_eq hdistinct
      (hledger.mem_dispatched_of_settled (fresh_start _ _ _ _ _) ht') hdispatched hid
    exact hnone result ht'

theorem entry_of_settled {result : CheckResult} {report : Report} (ht : (t, result) ∈ settledOf h)
    (hreport : report.bare = .checked t result) : Entry s s' resolved.policy h t.node report := by
  have htarget := mem_addressed_of_settled hresolve hcourse ht
  have hqueue : (start resolved poolSize mode standardPipeline none).queue.Nodup :=
    (distinct_start hs hresolve poolSize mode standardPipeline none).nodup
  have hagrees := hcourse.agrees_repliesTo (fresh_start _ _ _ _ _) hqueue
  have hmax : 1 ≤ resolved.policy.maxAttempts.toNat := Store.one_le_maxAttempts hresolve
  have hfollows := hcourse.follows (fresh_start _ _ _ _ _) hmax hagrees
  have hresult := hfollows.settled _ ht
  rw [(hcourse.ledger (fresh_start _ _ _ _ _)).settings] at hresult
  exact .checked (Store.mem_addressed_probePlan.mp htarget).2 ht hresult
    (retryLaw_of_result_eq_some hmax hresult) (Report.tellsResult_of_bare hreport)

/-- The entries of a run that is over, node by node. -/
theorem forall₂_entries : ∃ nodes : List Node, nodes.Perm (s.enabledNodes clusterId)
    ∧ List.Forall₂ (Entry s s' resolved.policy h) nodes r.results := by
  have hledger := hcourse.ledger (fresh_start _ _ _ _ _)
  have hdistinct := distinct_of_solo hs hresolve hcourse
  refine ⟨r.unaddressed ++ r.unsettled.map (·.node) ++ (settledOf h).map (·.1.node), ?_, ?_⟩
  · have htargets := (hledger.perm_dispatched (fresh_start _ _ _ _ _) hdistinct).map (·.node)
    rw [dispatched_eq hresolve hcourse, List.map_append, List.map_map] at htargets
    have hunaddressed : r.unaddressed = withoutAddress (s.probePlan clusterId) := by
      rw [hledger.unaddressed, ← (Store.resolve_eq_ok hresolve).2]
      rfl
    have hnodes : (s.probePlan clusterId).map (·.1) = s.enabledNodes clusterId := by
      rw [Store.probePlan, List.map_map]
      exact List.map_id _
    rw [List.append_assoc, hunaddressed, ← hnodes]
    exact (htargets.append_left _).trans (perm_plan _)
  · -- the entries stand in three parts, as the results do
    rw [results_eq]
    refine List.rel_append (List.rel_append ?_ ?_) ?_
    · rw [List.forall₂_map_right_iff, List.forall₂_same]
      intro n hn
      exact entry_of_unaddressed hs hresolve hcourse hn
    · rw [List.forall₂_map_left_iff, List.forall₂_map_right_iff, List.forall₂_same]
      intro t ht
      exact entry_of_unsettled hs hresolve hcourse ht
    · have hreports := hledger.reports.symm
      rw [← List.forall₂_eq_eq_eq, List.forall₂_map_left_iff, List.forall₂_map_right_iff] at hreports
      have hsettled := (List.forall₂_and_left (p := fun x => x ∈ settledOf h) _ _).mpr
        ⟨fun x hx => hx, hreports⟩
      rw [List.forall₂_map_left_iff]
      exact hsettled.imp fun x report hx => entry_of_settled hs hresolve hcourse hx.1 hx.2.symm

end Finished

/-- **All or complete.** A run of a cluster is refused if and only if the cluster cannot be resolved, and
then nothing has happened; else it has one entry for every node of the cluster that is switched on, and
no other. Such a run always comes to its end: it neither goes on for ever nor gets stuck. -/
theorem allOrComplete (hs : s.Keyed) (clusterId : UInt64) (poolSize : Nat) (mode : TrackingMode) :
    (∀ h outcome s', Performs s clusterId poolSize mode h outcome s' →
      (∃ e, s.resolve clusterId = .error e ∧ outcome = .error e ∧ h = [] ∧ s' = s)
      ∨ ∃ resolved reports nodes, s.resolve clusterId = .ok resolved ∧ outcome = .ok reports
        ∧ nodes.Perm (s.enabledNodes clusterId)
        ∧ List.Forall₂ (Entry s s' resolved.policy h) nodes reports)
    ∧ ∀ resolved, s.resolve clusterId = .ok resolved →
      Acc Next (s, start resolved poolSize mode standardPipeline none)
      ∧ ∀ h s' r, Solo s (start resolved poolSize mode standardPipeline none) h s' r →
        r.isOver ∨ ∃ clock, ∀ m, clock ≤ m.clock → ∃ l next, r.step m s' l = some next := by
  refine ⟨?_, fun resolved _ => ⟨acc_next _, ?_⟩⟩
  · intro h outcome s' hperforms
    cases hperforms with
    | refused hresolve => exact .inl ⟨_, hresolve, rfl, rfl, rfl⟩
    | finished hresolve hcourse hover =>
      obtain ⟨nodes, hnodes, hentries⟩ := forall₂_entries hs hresolve hcourse
      exact .inr ⟨_, _, nodes, hresolve, rfl, hnodes, hentries⟩
  · intro h s' r _
    cases hover : r.isOver with
    | true => exact .inl rfl
    | false =>
      obtain ⟨clock, hstep⟩ := exists_step (fun _ _ => default) hover
      refine .inr ⟨clock, ?_⟩
      intro m hm
      obtain ⟨l, next, -, hnext⟩ := hstep m s' hm
      exact ⟨l, next, hnext⟩

/-- What happens in a run whose only worker finds its first target well and is brought down by the second. -/
def secondLostHistory : List Happening :=
  [⟨smallTarget 1 "10.0.0.1", .taken⟩, ⟨smallTarget 1 "10.0.0.1", .sent 1⟩,
    ⟨smallTarget 1 "10.0.0.1", .answered 1 ⟨0, some ⟨true, none⟩⟩⟩,
    ⟨smallTarget 1 "10.0.0.1", .settled ⟨true, none, 0, 1⟩⟩, ⟨smallTarget 2 "10.0.0.2", .taken⟩,
    ⟨smallTarget 2 "10.0.0.2", .sent 1⟩, ⟨smallTarget 2 "10.0.0.2", .answered 1 ⟨0, none⟩⟩]

/-- The report on the target that was lost. -/
def secondLostReport : Report :=
  { nodeId := 2, nodeName := "node", addressId := some 2, address := some "10.0.0.2", isUp := false,
    error := some "health check worker aborted", cost := 0, attempts := 0, transitionedTo := none,
    failedHandlers := [] }

/-- The run of the small cluster with reports, on its way or at its end. -/
def secondLostRun (queue : List Target) (worker : Worker) (reports : List Report) : Run :=
  { start smallPlan 1 .address standardPipeline none with queue, workers := [worker], reports }

/-- The run with the report on its first target, after its worker was lost. -/
theorem exists_course_secondLostRun : ∃ s' report,
    Solo smallStore (start smallPlan 1 .address standardPipeline none) secondLostHistory s'
      (secondLostRun [] (.lost (smallTarget 2 "10.0.0.2")) [report])
    ∧ report.TellsResult (smallTarget 1 "10.0.0.1") ⟨true, none, 0, 1⟩ := by
  obtain ⟨report, s', hsettle, hsettled⟩ := RunSettings.settled_settle
    (c := (start smallPlan 1 .address standardPipeline none).settings) rfl (smallTarget 1 "10.0.0.1")
    ⟨true, none, 0, 1⟩ 0 smallStore
  refine ⟨s', report, ?_, Report.tellsResult_of_bare hsettled.bare⟩
  have htaken := Course.step (m := ⟨0, 0⟩) (l := .take 0)
    (.start : Solo smallStore (start smallPlan 1 .address standardPipeline none) [] smallStore _) rfl
  have hsent := htaken.step (m := ⟨0, 0⟩) (l := .send 0 ⟨0, some ⟨true, none⟩⟩) rfl
  have hanswered := hsent.step (m := ⟨0, 0⟩) (l := .receive 0) rfl
  have hstep : (secondLostRun [smallTarget 2 "10.0.0.2"]
        (.checked (smallTarget 1 "10.0.0.1") ⟨true, none, 0, 1⟩) []).step ⟨0, 0⟩ smallStore (.settle 0)
      = some (s', secondLostRun [smallTarget 2 "10.0.0.2"] .free [report]) :=
    step_of_settle_eq rfl hsettle
  have htaken := (hanswered.step hstep).step (m := ⟨0, 0⟩) (l := .take 0) rfl
  have hsent := htaken.step (m := ⟨0, 0⟩) (l := .send 0 ⟨0, none⟩) rfl
  exact hsent.step (m := ⟨0, 0⟩) (l := .receive 0) rfl

/-- A run whose only worker goes down with the second target has an entry of its own for each of the two. -/
theorem allOrComplete_secondLostRun : ∃ s' report nodes,
    Performs smallStore 1 1 .address secondLostHistory (.ok [secondLostReport, report]) s'
      ∧ report.TellsResult (smallTarget 1 "10.0.0.1") ⟨true, none, 0, 1⟩
      ∧ nodes.Perm (smallStore.enabledNodes 1)
      ∧ List.Forall₂ (Entry smallStore s' smallSnapshot secondLostHistory) nodes
        [secondLostReport, report] := by
  obtain ⟨s', report, hcourse, htells⟩ := exists_course_secondLostRun
  have hresults : (secondLostRun [] (.lost (smallTarget 2 "10.0.0.2")) [report]).results
      = [secondLostReport, report] := by
    simp only [results, secondLostRun, start, smallPlan, addressed, withoutAddress, List.filterMap_cons,
      List.filterMap_nil, List.any_cons, List.any_nil, htells.addressId]
    rfl
  have hperforms : Performs smallStore 1 1 .address secondLostHistory (.ok [secondLostReport, report]) s' :=
    hresults ▸ .finished Store.resolve_smallStore hcourse rfl
  rcases (allOrComplete Store.wellFormed_smallStore.keyed 1 1 .address).1 _ _ _ hperforms with
    ⟨e, -, hrefused, -⟩ | ⟨resolved, reports, nodes, hresolve, houtcome, hnodes, hentries⟩
  · cases hrefused
  · rw [Store.resolve_smallStore] at hresolve
    cases hresolve
    cases houtcome
    exact ⟨s', report, nodes, hperforms, htells, hnodes, hentries⟩

end Run

end FleetHealth
