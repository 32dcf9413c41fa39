import FleetHealth.Proofs.Run.Course
import Mathlib.Data.List.Nodup
/-!
# What a run that is over reports

The results of a run fall into three parts: the nodes without an address, the targets that were never
settled, and the settled checks. As no two targets share an address, each of them has one entry in one
of the last two parts.

* `Report.TellsUnchecked`, `Report.TellsResult` — what a report has to say.
* `Run.Ledger.perm_dispatched` — the last two parts together are the targets.
* `Run.Ledger.reportsOn_of_settled`, `Run.Ledger.reportsOn_of_unsettled` — the one report on a target.
-/

namespace FleetHealth

/-! ## What a report says -/

namespace Report

/-- Whether a report says that a node was not checked, on the address that was to be probed if there was
one, and why. -/
structure TellsUnchecked (r : Report) (n : Node) (a : Option Address) (reason : String) : Prop where
  nodeId : r.nodeId = n.id
  nodeName : r.nodeName = n.name
  addressId : r.addressId = a.map fun a => a.id
  address : r.address = a.map fun a => a.ip
  isUp : r.isUp = false
  error : r.error = some reason
  cost : r.cost = 0
  attempts : r.attempts = 0
  transitionedTo : r.transitionedTo = none
  failedHandlers : r.failedHandlers = []

/-- Whether a report says what the check of a target came to. -/
structure TellsResult (r : Report) (t : Target) (result : CheckResult) : Prop where
  nodeId : r.nodeId = t.node.id
  nodeName : r.nodeName = t.node.name
  addressId : r.addressId = some t.address.id
  address : r.address = some t.address.ip
  isUp : r.isUp = result.passed
  error : r.error = result.reason
  cost : r.cost = result.elapsed
  attempts : r.attempts = result.attempts

theorem tellsUnchecked_noAddress (n : Node) :
    (noAddress n).TellsUnchecked n none "no address available" :=
  ⟨rfl, rfl, rfl, rfl, rfl, rfl, rfl, rfl, rfl, rfl⟩

theorem tellsUnchecked_aborted (t : Target) :
    (aborted t).TellsUnchecked t.node (some t.address) "health check worker aborted" :=
  ⟨rfl, rfl, rfl, rfl, rfl, rfl, rfl, rfl, rfl, rfl⟩

theorem tellsResult_of_bare {r : Report} {t : Target} {result : CheckResult}
    (h : r.bare = .checked t result) : r.TellsResult t result where
  nodeId := (congrArg Report.nodeId h :)
  nodeName := (congrArg Report.nodeName h :)
  addressId := (congrArg Report.addressId h :)
  address := (congrArg Report.address h :)
  isUp := (congrArg Report.isUp h :)
  error := (congrArg Report.error h :)
  cost := (congrArg Report.cost h :)
  attempts := (congrArg Report.attempts h :)

end Report

/-! ## The three parts of the results -/

namespace Run

variable {r₀ r : Run} {h : List Happening} {t : Target} {result : CheckResult}

/-- The results that name the address of a target. -/
def reportsOn (r : Run) (t : Target) : List Report :=
  r.results.filter fun report => report.addressId == some t.address.id

/-- The targets that no settled check names. -/
def unsettled (r : Run) : List Target :=
  r.dispatched.filter fun t => !r.reports.any fun report => report.addressId == some t.address.id

/-- Whether no two targets of a run share an address. -/
def Distinct (r : Run) : Prop :=
  (r.dispatched.map fun t => t.address.id).Nodup

/-- A run that starts from a keyed store has distinct targets. -/
theorem distinct_start {s : Store} {clusterId : UInt64} {resolved : Resolved} (hs : s.Keyed)
    (hresolve : s.resolve clusterId = .ok resolved) (poolSize : Nat) (mode : TrackingMode)
    (handlers : List Handler) (ledger : Option Store) :
    (start resolved poolSize mode handlers ledger).Distinct := by
  have haddresses := Store.pairwise_address_addressed hs clusterId
  rw [← (Store.resolve_eq_ok hresolve).2] at haddresses
  exact List.pairwise_map.mpr haddresses

theorem Distinct.nodup (h : r.Distinct) : r.dispatched.Nodup :=
  List.Nodup.of_map _ h

theorem Ledger.distinct (hr : Ledger r₀ h r) (h₀ : r₀.Distinct) : r.Distinct := by
  rw [Distinct, hr.dispatched]
  exact h₀

theorem results_eq (r : Run) :
    r.results = r.unaddressed.map .noAddress ++ r.unsettled.map .aborted ++ r.reports :=
  rfl

/-- An item whose key no other item has is all there is for its key. -/
theorem filter_eq_singleton {α β : Type} [BEq β] [LawfulBEq β] {l : List α} {x : α} (key : α → β)
    (hl : (l.map key).Nodup) (hx : x ∈ l) : l.filter (fun y => key y == key x) = [x] := by
  obtain ⟨before, after, rfl⟩ := List.append_of_mem hx
  rw [List.map_append, List.map_cons, List.nodup_append, List.nodup_cons] at hl
  obtain ⟨-, ⟨hafter, -⟩, hbefore⟩ := hl
  have hleft : before.filter (fun y => key y == key x) = [] := List.filter_eq_nil_iff.mpr fun y hy he =>
    hbefore _ (List.mem_map_of_mem hy) _ List.mem_cons_self (eq_of_beq he)
  have hright : after.filter (fun y => key y == key x) = [] := List.filter_eq_nil_iff.mpr fun y hy he =>
    hafter (eq_of_beq he ▸ List.mem_map_of_mem hy)
  rw [List.filter_append, List.filter_cons, if_pos BEq.rfl, hleft, hright]
  rfl

/-- What is known of a settled target: it was dispatched. -/
theorem Ledger.perm_targets (hr : Ledger r₀ h r) (hr₀ : r₀.Fresh) :
    ((settledOf h).map (·.1) ++ (r.held ++ r.queue)).Perm r.dispatched := by
  rw [hr.dispatched, ← hr₀.queue, ← hr.queue, ← List.append_assoc]
  exact hr.held.append_right r.queue

theorem Ledger.settled_nodup (hr : Ledger r₀ h r) (hr₀ : r₀.Fresh) (hdistinct : r.Distinct) :
    ((settledOf h).map fun x => x.1.address.id).Nodup := by
  have hall := ((hr.perm_targets hr₀).map fun t : Target => t.address.id).nodup_iff.mpr hdistinct
  rw [List.map_append, List.map_map] at hall
  exact (List.nodup_append.mp hall).1

theorem Ledger.mem_dispatched_of_settled (hr : Ledger r₀ h r) (hr₀ : r₀.Fresh)
    (ht : (t, result) ∈ settledOf h) : t ∈ r.dispatched :=
  (hr.perm_targets hr₀).mem_iff.mp (List.mem_append_left _ (List.mem_map_of_mem ht))

theorem eq_of_address_id_eq {t t' : Target} (hdistinct : r.Distinct) (ht : t ∈ r.dispatched)
    (ht' : t' ∈ r.dispatched) (hid : t.address.id = t'.address.id) : t = t' := by
  have hsingle := filter_eq_singleton (fun t : Target => t.address.id) hdistinct ht'
  have hmem : t ∈ r.dispatched.filter fun y => y.address.id == t'.address.id :=
    List.mem_filter.mpr ⟨ht, beq_iff_eq.mpr hid⟩
  rw [hsingle] at hmem
  exact List.mem_singleton.mp hmem

/-- Targets of one node are one target. -/
theorem eq_of_node_id_eq {s : Store} {clusterId : UInt64} {t' : Target} (hs : s.Keyed)
    (ht : t ∈ addressed (s.probePlan clusterId)) (ht' : t' ∈ addressed (s.probePlan clusterId))
    (hid : t.node.id = t'.node.id) : t = t' := by
  have hnodes : ((addressed (s.probePlan clusterId)).map fun t => t.node.id).Nodup :=
    List.pairwise_map.mpr (Store.pairwise_node_addressed hs clusterId)
  exact List.inj_on_of_nodup_map hnodes ht ht' hid

/-- The addresses that reports name are those of the settled targets. -/
theorem Ledger.map_addressId (hr : Ledger r₀ h r) :
    r.reports.map (·.addressId) = (settledOf h).map fun x => some x.1.address.id := by
  have hmap := congrArg (List.map (·.addressId)) hr.reports
  rw [List.map_map, List.map_map] at hmap
  exact hmap

/-- A target is unsettled if no result was settled for it. -/
theorem Ledger.mem_unsettled_iff (hr : Ledger r₀ h r) (hr₀ : r₀.Fresh) (hdistinct : r.Distinct) :
    t ∈ r.unsettled ↔ t ∈ r.dispatched ∧ ∀ result, (t, result) ∉ settledOf h := by
  have hany : (r.reports.any fun report => report.addressId == some t.address.id) = true
      ↔ some t.address.id ∈ (settledOf h).map fun x => some x.1.address.id := by
    rw [← hr.map_addressId, List.any_eq_true, List.mem_map]
    simp only [beq_iff_eq]
  rw [unsettled, List.mem_filter, Bool.not_eq_true', ← Bool.not_eq_true, hany]
  refine and_congr_right fun ht => ⟨?_, ?_⟩
  · intro hnot result hmem
    exact hnot (List.mem_map_of_mem (f := fun x => some x.1.address.id) hmem)
  · intro hnot hmem
    obtain ⟨⟨t', result⟩, hsettled, hid⟩ := List.mem_map.mp hmem
    obtain rfl : t' = t := eq_of_address_id_eq hdistinct (hr.mem_dispatched_of_settled hr₀ hsettled) ht
      (Option.some.inj hid)
    exact hnot result hsettled

theorem Ledger.not_mem_unsettled (hr : Ledger r₀ h r) (hr₀ : r₀.Fresh) (hdistinct : r.Distinct)
    (ht : (t, result) ∈ settledOf h) : t ∉ r.unsettled := fun hmem =>
  ((hr.mem_unsettled_iff hr₀ hdistinct).mp hmem).2 result ht

/-- **Settled and unsettled targets together are the targets.** -/
theorem Ledger.perm_dispatched (hr : Ledger r₀ h r) (hr₀ : r₀.Fresh) (hdistinct : r.Distinct) :
    (r.unsettled ++ (settledOf h).map (·.1)).Perm r.dispatched := by
  have hdispatched := hdistinct.nodup
  have hsettled : ((settledOf h).map (·.1)).Nodup := by
    have hids := hr.settled_nodup hr₀ hdistinct
    refine List.Nodup.of_map (fun t => t.address.id) ?_
    rw [List.map_map]
    exact hids
  refine (List.perm_ext_iff_of_nodup ?_ hdispatched).mpr ?_
  · refine List.nodup_append.mpr ⟨hdispatched.filter _, hsettled, ?_⟩
    intro t ht t' ht' he
    obtain ⟨⟨_, result⟩, hmem, rfl⟩ := List.mem_map.mp ht'
    subst he
    exact hr.not_mem_unsettled hr₀ hdistinct hmem ht
  · intro t
    rw [List.mem_append, hr.mem_unsettled_iff hr₀ hdistinct]
    constructor
    · rintro (⟨ht, -⟩ | ht)
      · exact ht
      · obtain ⟨⟨_, result⟩, hmem, rfl⟩ := List.mem_map.mp ht
        exact hr.mem_dispatched_of_settled hr₀ hmem
    · -- whatever was dispatched was settled, or it was not
      intro ht
      by_cases hsettled : ∃ result, (t, result) ∈ settledOf h
      · obtain ⟨result, hmem⟩ := hsettled
        exact .inr (List.mem_map_of_mem (f := (·.1)) hmem)
      · exact .inl ⟨ht, fun result hmem => hsettled ⟨result, hmem⟩⟩

/-! ## The report on one target -/

theorem Ledger.map_bare_filter (hr : Ledger r₀ h r) (id : UInt64) :
    (r.reports.filter fun report => report.addressId == some id).map Report.bare
      = ((settledOf h).filter fun x => x.1.address.id == id).map fun x => .checked x.1 x.2 := by
  have hbare : (r.reports.filter fun report => report.addressId == some id).map Report.bare
      = (r.reports.map Report.bare).filter fun report => report.addressId == some id := by
    rw [List.filter_map]
    rfl
  rw [hbare, hr.reports, List.filter_map]
  rfl

/-- The results that name an address come from the unsettled targets and from the settled checks. -/
theorem reportsOn_eq (r : Run) (t : Target) :
    r.reportsOn t = (r.unsettled.filter fun t' => t'.address.id == t.address.id).map .aborted
      ++ r.reports.filter fun report => report.addressId == some t.address.id := by
  have hnone : (r.unaddressed.map Report.noAddress).filter
      (fun report => report.addressId == some t.address.id) = [] := by
    rw [List.filter_eq_nil_iff]
    intro report hreport
    obtain ⟨n, -, rfl⟩ := List.mem_map.mp hreport
    exact Bool.false_ne_true
  rw [reportsOn, results_eq, List.filter_append, List.filter_append, hnone, List.nil_append,
    List.filter_map]
  rfl

/-- **A settled target has one report, on its result.** -/
theorem Ledger.reportsOn_of_settled (hr : Ledger r₀ h r) (hr₀ : r₀.Fresh) (hdistinct : r.Distinct)
    (ht : (t, result) ∈ settledOf h) :
    ∃ report, r.reportsOn t = [report] ∧ report.TellsResult t result := by
  -- an unsettled target of this address would be the settled one
  have hunsettled : r.unsettled.filter (fun t' => t'.address.id == t.address.id) = [] := by
    rw [List.filter_eq_nil_iff]
    intro t' ht' hid
    obtain rfl : t' = t := eq_of_address_id_eq hdistinct (List.mem_filter.mp ht').1
      (hr.mem_dispatched_of_settled hr₀ ht) (eq_of_beq hid)
    exact hr.not_mem_unsettled hr₀ hdistinct ht ht'
  have hsettled := filter_eq_singleton (fun x : Target × CheckResult => x.1.address.id)
    (hr.settled_nodup hr₀ hdistinct) ht
  have hbare : (r.reportsOn t).map Report.bare = [.checked t result] := by
    rw [reportsOn_eq, hunsettled, List.map_nil, List.nil_append, hr.map_bare_filter, hsettled]
    rfl
  obtain ⟨report, hreport, hchecked⟩ := List.map_eq_singleton_iff.mp hbare
  exact ⟨report, hreport, Report.tellsResult_of_bare hchecked⟩

/-- **A target that was never settled has one report, on that.** -/
theorem Ledger.reportsOn_of_unsettled (hr : Ledger r₀ h r) (hr₀ : r₀.Fresh) (hdistinct : r.Distinct)
    (ht : t ∈ r.unsettled) : r.reportsOn t = [.aborted t] := by
  have hids : (r.unsettled.map fun t => t.address.id).Nodup :=
    (List.filter_sublist.map _).nodup hdistinct
  have hunsettled := filter_eq_singleton (fun t : Target => t.address.id) hids ht
  have hreports : r.reports.filter (fun report => report.addressId == some t.address.id) = [] := by
    rw [← List.map_eq_nil_iff, hr.map_bare_filter, List.map_eq_nil_iff, List.filter_eq_nil_iff]
    rintro ⟨t', result⟩ hmem hid
    obtain rfl : t' = t := eq_of_address_id_eq hdistinct (hr.mem_dispatched_of_settled hr₀ hmem)
      (List.mem_filter.mp ht).1 (eq_of_beq hid)
    exact hr.not_mem_unsettled hr₀ hdistinct hmem ht
  rw [reportsOn_eq, hreports, hunsettled]
  rfl

end Run

end FleetHealth
