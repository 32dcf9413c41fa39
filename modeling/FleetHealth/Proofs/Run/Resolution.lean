import FleetHealth.Proofs.Run.Target
/-!
# What a run looks up

A run that finds its cluster switched on, with a policy whose method is valid, checks every node of the
cluster that is switched on, each on the one address that is preferred to all others that would do. What
else the store holds has no say in it.

* `Store.probesOn_probeAddress?` — the address that is picked is the preferred one.
* `Store.probePlan_eq_of_iff` — the nodes and the addresses that would do decide the plan.
* `Store.resolve_exact` — the outcome of every look-up, faults included.
-/

namespace FleetHealth

namespace Store

variable {s s' : Store} {clusterId : UInt64} {n : Node} {a : Address} {c : Cluster}
  {p : Policy}

/-! ## Nodes and addresses that come into question -/

/-- Whether a node of the store belongs to a cluster and is switched on. -/
structure Enabled (s : Store) (clusterId : UInt64) (n : Node) : Prop where
  stored : s.record? .nodes (idKey n.id) = some n
  cluster : n.clusterId = clusterId
  isOn : n.isOn = true

/-- Whether an address of the store belongs to a node, has its role, and is switched on and accessible. -/
structure Eligible (s : Store) (n : Node) (a : Address) : Prop where
  stored : s.record? .addresses (idKey a.id) = some a
  owner : a.nodeId = n.id
  role : a.role = n.role
  isOn : a.isOn = true
  canAccess : a.canAccess = true

/-- Whether an address is preferred to another one: a greater order comes first, then a smaller number. -/
def Preferred (a b : Address) : Prop :=
  b.order < a.order ∨ b.order = a.order ∧ a.id ≤ b.id

/-- Whether a node is to be probed on an address, or cannot be probed at all. -/
def ProbesOn (s : Store) (n : Node) : Option Address → Prop
  | some a => s.Eligible n a ∧ ∀ b, s.Eligible n b → Preferred a b
  | none => ∀ a, ¬s.Eligible n a

theorem enabled_congr (h : s'.table .nodes = s.table .nodes) :
    s'.Enabled clusterId n ↔ s.Enabled clusterId n := by
  have hrecord := record?_congr (c := .nodes) h (idKey n.id)
  exact ⟨fun ⟨hstored, hcluster, hon⟩ => ⟨hrecord ▸ hstored, hcluster, hon⟩,
    fun ⟨hstored, hcluster, hon⟩ => ⟨hrecord ▸ hstored, hcluster, hon⟩⟩

theorem eligible_congr (h : s'.table .addresses = s.table .addresses) :
    s'.Eligible n a ↔ s.Eligible n a := by
  have hrecord := record?_congr (c := .addresses) h (idKey a.id)
  exact ⟨fun ⟨hstored, howner, hrole, hon, haccess⟩ => ⟨hrecord ▸ hstored, howner, hrole, hon, haccess⟩,
    fun ⟨hstored, howner, hrole, hon, haccess⟩ => ⟨hrecord ▸ hstored, howner, hrole, hon, haccess⟩⟩

theorem mem_enabledNodes_iff (hs : s.Keyed) : n ∈ s.enabledNodes clusterId ↔ s.Enabled clusterId n := by
  rw [mem_enabledNodes, hs.mem_records_iff (c := .nodes)]
  exact ⟨fun ⟨hstored, hcluster, hon⟩ => ⟨hstored, hcluster, hon⟩,
    fun h => ⟨h.stored, h.cluster, h.isOn⟩⟩

theorem mem_eligibleAddresses_iff (hs : s.Keyed) : a ∈ s.eligibleAddresses n ↔ s.Eligible n a := by
  rw [mem_eligibleAddresses, hs.mem_records_iff (c := .addresses)]
  exact ⟨fun ⟨hstored, howner, hrole, hon, haccess⟩ => ⟨hstored, howner, hrole, hon, haccess⟩,
    fun h => ⟨h.stored, h.owner, h.role, h.isOn, h.canAccess⟩⟩

theorem pairwise_enabledNodes (hs : s.Keyed) :
    (s.enabledNodes clusterId).Pairwise fun n n' => n.id < n'.id :=
  ((hs.pairwise_records (c := .nodes)).imp fun hlt => lt_of_idKey_lt hlt).filter _

theorem pairwise_eligibleAddresses (hs : s.Keyed) :
    (s.eligibleAddresses n).Pairwise fun a a' => a.id < a'.id :=
  ((hs.pairwise_records (c := .addresses)).imp fun hlt => lt_of_idKey_lt hlt).filter _

/-! ## The preferred address -/

theorem preferred_self (a : Address) : Preferred a a :=
  .inr ⟨rfl, UInt64.le_refl a.id⟩

/-- An address before another one is preferred to it unless its order is smaller. -/
theorem preferred_of_lt {b : Address} (hid : a.id < b.id) (horder : ¬a.order < b.order) : Preferred a b := by
  rw [Preferred, Int32.lt_iff_toInt_lt, ← Int32.toInt_inj]
  rw [Int32.lt_iff_toInt_lt] at horder
  rcases Int.lt_or_eq_of_le (Int.not_lt.mp horder) with hlt | heq
  · exact .inl hlt
  · exact .inr ⟨heq, UInt64.le_of_lt hid⟩

/-- Of addresses in ascending order the one that is picked is preferred to them all. -/
theorem preferred_of_firstOfGreatestOrder {as : List Address}
    (has : as.Pairwise fun a b => a.id < b.id) (h : firstOfGreatestOrder as = some a) :
    ∀ b ∈ as, Preferred a b := by
  induction as generalizing a with
  | nil => cases h
  | cons first rest ih =>
    have ⟨hfirst, hrest⟩ := List.pairwise_cons.mp has
    rw [firstOfGreatestOrder] at h
    cases hpicked : firstOfGreatestOrder rest with
    | none =>
      rw [hpicked] at h
      obtain rfl := Option.some.inj h
      rw [firstOfGreatestOrder_eq_none_iff.mp hpicked]
      simpa using preferred_self first
    | some c =>
      rw [hpicked] at h
      simp only at h
      intro b hb
      split at h
      · -- the one picked from the rest has the greater order
        rename_i hlt
        obtain rfl := Option.some.inj h
        rcases List.mem_cons.mp hb with rfl | hb
        · exact .inl hlt
        · exact ih hrest hpicked b hb
      · rename_i hnlt
        obtain rfl := Option.some.inj h
        rcases List.mem_cons.mp hb with rfl | hb
        · exact preferred_self b
        · apply preferred_of_lt (hfirst b hb)
          -- no order in the rest exceeds that of the one picked from it
          have hle : ¬c.order < b.order := by
            rcases ih hrest hpicked b hb with hlt | ⟨heq, -⟩
            · exact Int32.lt_asymm hlt
            · rw [heq]
              exact Int32.lt_irrefl
          rw [Int32.lt_iff_toInt_lt] at hnlt hle ⊢
          omega

theorem probesOn_probeAddress? (hs : s.Keyed) (n : Node) : s.ProbesOn n (s.probeAddress? n) := by
  cases h : s.probeAddress? n with
  | none =>
    intro a ha
    rw [probeAddress?_eq_none_iff] at h
    have hmem := (mem_eligibleAddresses_iff hs).mpr ha
    rw [h] at hmem
    cases hmem
  | some a =>
    refine ⟨(mem_eligibleAddresses_iff hs).mp (mem_of_firstOfGreatestOrder h), ?_⟩
    intro b hb
    exact preferred_of_firstOfGreatestOrder (pairwise_eligibleAddresses hs) h b
      ((mem_eligibleAddresses_iff hs).mpr hb)

/-- **The plan of a run is decided by the nodes and the addresses that come into question.** -/
theorem probePlan_eq_of_iff (hs : s.Keyed) (hs' : s'.Keyed)
    (hnodes : ∀ n, s'.Enabled clusterId n ↔ s.Enabled clusterId n)
    (haddresses : ∀ n, s.Enabled clusterId n → ∀ a, s'.Eligible n a ↔ s.Eligible n a) :
    s'.probePlan clusterId = s.probePlan clusterId := by
  have henabled : s'.enabledNodes clusterId = s.enabledNodes clusterId := by
    refine (pairwise_enabledNodes hs').eq_of_mem_iff (pairwise_enabledNodes hs) ?_
    intro n
    rw [mem_enabledNodes_iff hs', mem_enabledNodes_iff hs, hnodes]
  rw [probePlan, probePlan, henabled]
  apply List.map_congr_left
  intro n hn
  have heligible : s'.eligibleAddresses n = s.eligibleAddresses n := by
    refine (pairwise_eligibleAddresses hs').eq_of_mem_iff (pairwise_eligibleAddresses hs) ?_
    intro a
    rw [mem_eligibleAddresses_iff hs', mem_eligibleAddresses_iff hs,
      haddresses n ((mem_enabledNodes_iff hs).mp hn)]
  rw [probeAddress?, probeAddress?, heligible]

/-! ## The outcome of a look-up -/

theorem findEnabledCluster_of_wellFormed (hs : s.WellFormed) (clusterId : UInt64) :
    s.findEnabledCluster clusterId
      = .ok ((s.record? .clusters (idKey clusterId)).filter (·.isOn)) := by
  rw [findEnabledCluster, getCluster, find?_of_decodes (hs.decodes .clusters)]
  rfl

/-- Over a well-formed store only the cluster can be at fault. -/
theorem resolve_of_wellFormed (hs : s.WellFormed) (clusterId : UInt64) :
    s.resolve clusterId =
      match (s.record? .clusters (idKey clusterId)).filter (·.isOn) with
      | none => .error (.clusterNotFound clusterId)
      | some cluster =>
        match cluster.healthCheck with
        | none => .error (.policyMissing clusterId)
        | some p =>
          match p.snapshot with
          | .error e => .error (.policyMalformed e)
          | .ok policy => .ok ⟨cluster, policy, s.probePlan clusterId⟩ := by
  rw [resolve_of_decodes (hs.decodes .nodes) (hs.decodes .addresses), resolvePolicy,
    findEnabledCluster_of_wellFormed hs]
  cases (s.record? .clusters (idKey clusterId)).filter (·.isOn) with
  | none => rfl
  | some cluster =>
    cases hpolicy : cluster.healthCheck with
    | none => simp only [mapError_ok, bind, Except.bind, hpolicy, Except.map]
    | some p =>
      cases hsnapshot : p.snapshot with
      | error e => simp only [mapError_ok, mapError_error, bind, Except.bind, hpolicy, hsnapshot, Except.map]
      | ok policy => simp only [mapError_ok, bind, Except.bind, hpolicy, hsnapshot, pure, Except.pure, Except.map]

/-- Without a cluster that is switched on there is nothing to look up. -/
theorem resolve_of_no_cluster (hs : s.WellFormed)
    (h : ¬∃ c, s.record? .clusters (idKey clusterId) = some c ∧ c.isOn = true) :
    s.resolve clusterId = .error (.clusterNotFound clusterId) := by
  have hnone : (s.record? .clusters (idKey clusterId)).filter (·.isOn) = none := by
    rw [Option.eq_none_iff_forall_ne_some]
    intro c hc
    exact h ⟨c, Option.filter_eq_some_iff.mp hc⟩
  rw [resolve_of_wellFormed hs, hnone]

/-- With one, there is no policy, or one with an invalid method, or everything is found. -/
theorem resolve_cases (hs : s.WellFormed) (hcluster : s.record? .clusters (idKey clusterId) = some c)
    (hon : c.isOn = true) :
    (c.healthCheck = none ∧ s.resolve clusterId = .error (.policyMissing clusterId))
      ∨ (∃ p, c.healthCheck = some p ∧ p.MethodIsInvalid
        ∧ s.resolve clusterId = .error (.policyMalformed (.unsupportedMethod p.method)))
      ∨ ∃ p q, c.healthCheck = some p ∧ ¬p.MethodIsInvalid ∧ p.snapshot = .ok q
        ∧ s.resolve clusterId = .ok ⟨c, q, s.probePlan clusterId⟩ := by
  rw [resolve_of_wellFormed hs, Option.filter_eq_some_iff.mpr ⟨hcluster, hon⟩]
  cases hpolicy : c.healthCheck with
  | none => simp only [hpolicy, true_and, true_or]
  | some p =>
    by_cases hmethod : p.MethodIsInvalid
    · refine .inr (.inl ⟨p, rfl, hmethod, ?_⟩)
      simp only [hpolicy, Policy.snapshot_eq_error_iff.mpr ⟨hmethod, rfl⟩]
    · cases hsnapshot : p.snapshot with
      | error e => exact absurd (Policy.snapshot_eq_error_iff.mp hsnapshot).1 hmethod
      | ok q =>
        refine .inr (.inr ⟨p, q, rfl, hmethod, hsnapshot, ?_⟩)
        simp only [hpolicy, hsnapshot]

/-- The plan holds each node that is to be checked once, in ascending order, with its address. -/
theorem pairwise_probePlan (hs : s.Keyed) (clusterId : UInt64) :
    (s.probePlan clusterId).Pairwise fun t t' => t.1.id < t'.1.id :=
  List.pairwise_map.mpr (pairwise_enabledNodes hs)

theorem mem_map_fst_probePlan (hs : s.Keyed) :
    n ∈ (s.probePlan clusterId).map Prod.fst ↔ s.Enabled clusterId n := by
  rw [probePlan, List.map_map, ← mem_enabledNodes_iff hs]
  exact iff_of_eq (congrArg (n ∈ ·) (List.map_id _))

theorem probesOn_of_mem_probePlan (hs : s.Keyed) {t : Node × Option Address}
    (ht : t ∈ s.probePlan clusterId) : s.ProbesOn t.1 t.2 := by
  obtain ⟨n, -, rfl⟩ := List.mem_map.mp ht
  exact probesOn_probeAddress? hs n

/-- **What a run looks up.** A cluster that is missing or off is at fault first, then a missing policy,
then an invalid method. Otherwise there is one target for each node of the cluster that is on, in
ascending order, on its preferred address if it has one. Stores that agree on the cluster, on these nodes
and on the addresses that would do for them give the same answer. -/
theorem resolve_exact (hs : s.WellFormed) (clusterId : UInt64) :
    (s.resolve clusterId = .error (.clusterNotFound clusterId)
        ↔ ¬∃ c, s.record? .clusters (idKey clusterId) = some c ∧ c.isOn = true)
      ∧ (∀ c, s.record? .clusters (idKey clusterId) = some c → c.isOn = true →
        (s.resolve clusterId = .error (.policyMissing clusterId) ↔ c.healthCheck = none)
          ∧ ∀ p, c.healthCheck = some p →
            ((∃ e, s.resolve clusterId = .error (.policyMalformed e)) ↔ p.MethodIsInvalid)
              ∧ (¬p.MethodIsInvalid → ∃ r, s.resolve clusterId = .ok r
                ∧ r.cluster = c ∧ p.snapshot = .ok r.policy
                ∧ (r.targets.Pairwise fun t t' => t.1.id < t'.1.id)
                ∧ (∀ n, n ∈ r.targets.map Prod.fst ↔ s.Enabled clusterId n)
                ∧ ∀ t ∈ r.targets, s.ProbesOn t.1 t.2))
      ∧ ∀ s' : Store, s'.WellFormed →
        s'.record? .clusters (idKey clusterId) = s.record? .clusters (idKey clusterId) →
        (∀ n, s'.Enabled clusterId n ↔ s.Enabled clusterId n) →
        (∀ n, s.Enabled clusterId n → ∀ a, s'.Eligible n a ↔ s.Eligible n a) →
          s'.resolve clusterId = s.resolve clusterId := by
  refine ⟨⟨?_, resolve_of_no_cluster hs⟩, ?_, ?_⟩
  · rintro h ⟨c, hcluster, hon⟩
    rcases resolve_cases hs hcluster hon with ⟨-, h'⟩ | ⟨p, -, -, h'⟩ | ⟨p, q, -, -, -, h'⟩ <;>
      · rw [h'] at h
        cases h
  · intro c hcluster hon
    rcases resolve_cases hs hcluster hon with
      ⟨hpolicy, h⟩ | ⟨p, hpolicy, hmethod, h⟩ | ⟨p, q, hpolicy, hmethod, hsnapshot, h⟩
    · simp [h, hpolicy]
    · simp [h, hpolicy, hmethod]
    · refine ⟨by simp [h, hpolicy], ?_⟩
      rintro p' hpolicy'
      obtain rfl : p = p' := Option.some.inj (hpolicy.symm.trans hpolicy')
      refine ⟨by simp [h, hmethod], fun _ => ⟨_, h, rfl, hsnapshot, ?_⟩⟩
      exact ⟨pairwise_probePlan hs.keyed clusterId, fun n => mem_map_fst_probePlan hs.keyed,
        fun t ht => probesOn_of_mem_probePlan hs.keyed ht⟩
  · intro s' hs' hcluster hnodes haddresses
    rw [resolve_of_wellFormed hs, resolve_of_wellFormed hs', hcluster,
      probePlan_eq_of_iff hs.keyed hs'.keyed hnodes haddresses]

/-- A store in which the first node has two addresses of one order. -/
def tiedStore : Store :=
  smallStore.putAddress { smallAddress 3 "10.0.0.3" with nodeId := 1 }

theorem wellFormed_tiedStore : tiedStore.WellFormed :=
  wellFormed_smallStore.put .addresses rfl

/-- Addresses of one order, and a second cluster that does not matter. -/
theorem resolve_exact_tiedStore :
    tiedStore.WellFormed
      ∧ (∃ r, tiedStore.resolve 1 = .ok r ∧ r.cluster = smallCluster
        ∧ smallPolicy.snapshot = .ok r.policy
        ∧ (r.targets.Pairwise fun t t' => t.1.id < t'.1.id)
        ∧ (∀ n, n ∈ r.targets.map Prod.fst ↔ tiedStore.Enabled 1 n)
        ∧ ∀ t ∈ r.targets, tiedStore.ProbesOn t.1 t.2)
      ∧ (tiedStore.putCluster { smallCluster with id := 2 }).resolve 1 = tiedStore.resolve 1 := by
  have hs := wellFormed_tiedStore
  have hcluster : tiedStore.record? .clusters (idKey 1) = some smallCluster := by
    rw [tiedStore, putAddress, record?_put_of_table_ne _ (by decide)]
    exact record?_smallStore_cluster
  have hmethod : ¬smallPolicy.MethodIsInvalid := fun h => h.1 (by decide)
  obtain ⟨-, hfound, hagree⟩ := resolve_exact hs 1
  refine ⟨hs, ((hfound smallCluster hcluster rfl).2 smallPolicy rfl).2 hmethod, ?_⟩
  apply hagree _ (hs.put .clusters rfl)
  · exact record?_put_ne _ fun he => absurd (idKey_injective he) (by decide)
  · intro n
    exact enabled_congr (table_put_ne (c := .clusters) _ (by decide))
  · intro n _ a
    exact eligible_congr (table_put_ne (c := .clusters) _ (by decide))

end Store

end FleetHealth
