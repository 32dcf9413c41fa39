import FleetHealth.Proofs.Policy.NormalForm
import FleetHealth.Proofs.Store.Health
import FleetHealth.Run.Machine
/-!
# What a run finds

A run checks the nodes of its cluster that are switched on, in the order of their numbers, each on the
address that `Store.probeAddress?` picks. The targets of a run belong to different nodes and to
different addresses, and what identifies them stays in the store as long as its fleet does.

* `Store.resolve_eq_ok` — what a successful look at the store found.
* `Store.pairwise_node_addressed`, `Store.pairwise_address_addressed` — no two targets share a node or
  an address.
* `Store.probePlan_congr`, `Store.resolvePolicy_congr` — stores of one fleet lead to the same run, health
  and backups apart.
-/

namespace FleetHealth

/-- The target without health and backup. -/
def Target.identity (t : Target) : Target :=
  ⟨t.node.identity, t.address.identity⟩

/-- Whether a target is made of a node of the store and one of its addresses, as far as they are
identified. -/
structure Target.Rooted (s : Store) (t : Target) : Prop where
  node : (s.record? .nodes (idKey t.node.id)).map Node.identity = some t.node.identity
  address : (s.record? .addresses (idKey t.address.id)).map Address.identity = some t.address.identity
  owner : t.address.nodeId = t.node.id

namespace Store

variable {s s' : Store} {clusterId : UInt64} {r : Resolved} {n : Node} {t t' : Target}

/-- The nodes of a cluster that are switched on. -/
def enabledNodes (s : Store) (clusterId : UInt64) : List Node :=
  (s.records .nodes).filter fun n => n.clusterId == clusterId && n.isOn

/-- The addresses on which a node may be probed. -/
def eligibleAddresses (s : Store) (n : Node) : List Address :=
  (s.records .addresses).filter fun a =>
    a.nodeId == n.id && a.role == n.role && a.isOn && a.canAccess

/-- The address on which a node is probed. -/
def probeAddress? (s : Store) (n : Node) : Option Address :=
  firstOfGreatestOrder (s.eligibleAddresses n)

/-- The nodes of a cluster that are switched on, each with its address. -/
def probePlan (s : Store) (clusterId : UInt64) : List (Node × Option Address) :=
  (s.enabledNodes clusterId).map fun n => (n, s.probeAddress? n)

/-! ## Picking an address -/

theorem mem_of_firstOfGreatestOrder {as : List Address} {a : Address}
    (h : firstOfGreatestOrder as = some a) : a ∈ as := by
  induction as generalizing a with
  | nil => cases h
  | cons b rest ih =>
    unfold firstOfGreatestOrder at h
    split at h
    · -- the first of the others, or this one if its order is not less
      rename_i hrest
      split at h <;> cases h
      · exact List.mem_cons_of_mem _ (ih hrest)
      · exact List.mem_cons_self
    · cases h
      exact List.mem_cons_self

theorem firstOfGreatestOrder_map {f : Address → Address} (hf : ∀ a, (f a).order = a.order)
    (as : List Address) :
    firstOfGreatestOrder (as.map f) = (firstOfGreatestOrder as).map f := by
  induction as with
  | nil => rfl
  | cons a rest ih =>
    rw [List.map_cons, firstOfGreatestOrder, firstOfGreatestOrder, ih]
    cases firstOfGreatestOrder rest with
    | none => rfl
    | some b =>
      simp only [Option.map_some, hf]
      split <;> rfl

theorem firstOfGreatestOrder_eq_none_iff {as : List Address} :
    firstOfGreatestOrder as = none ↔ as = [] := by
  cases as with
  | nil => exact ⟨fun _ => rfl, fun _ => rfl⟩
  | cons a rest =>
    unfold firstOfGreatestOrder
    refine ⟨?_, fun h => by cases h⟩
    intro h
    split at h
    · split at h <;> cases h
    · cases h

theorem probeAddress?_eq_none_iff : s.probeAddress? n = none ↔ s.eligibleAddresses n = [] :=
  firstOfGreatestOrder_eq_none_iff

/-! ## Looking at the store -/

theorem mapError_ok {ε ε' α : Type} (f : ε → ε') (a : α) : (Except.ok a).mapError f = .ok a :=
  rfl

theorem mapError_error {ε ε' α : Type} (f : ε → ε') (e : ε) :
    (Except.error e : Except ε α).mapError f = .error (f e) :=
  rfl

theorem addressOf_eq_ok {target : Node × Option Address} (h : s.addressOf n = .ok target) :
    target = (n, s.probeAddress? n) := by
  rw [addressOf, findFirstAccessible] at h
  cases hscan : s.scan .addresses fun a =>
      a.nodeId == n.id && a.role == n.role && a.isOn && a.canAccess with
  | error e => rw [hscan] at h; cases h
  | ok as =>
    rw [hscan] at h
    cases h
    rw [(scan_eq_ok_iff.mp hscan).2]
    rfl

theorem addressOf_of_decodes (h : s.Decodes .addresses) (n : Node) :
    s.addressOf n = .ok (n, s.probeAddress? n) := by
  rw [addressOf, findFirstAccessible, scan_of_decodes h]
  rfl

theorem mapM_eq_ok {α β ε : Type} {f : α → Except ε β} {g : α → β}
    (hf : ∀ x y, f x = .ok y → y = g x) {xs : List α} {ys : List β} (h : xs.mapM f = .ok ys) :
    ys = xs.map g := by
  induction xs generalizing ys with
  | nil =>
    cases h
    rfl
  | cons x xs ih =>
    rw [List.mapM_cons] at h
    cases hx : f x with
    | error e => rw [hx] at h; cases h
    | ok y =>
      cases hxs : xs.mapM f with
      | error e => rw [hx, hxs] at h; cases h
      | ok rest =>
        rw [hx, hxs] at h
        cases h
        rw [List.map_cons, ← hf x y hx, ← ih hxs]

theorem mapM_of_forall_ok {α β ε : Type} {f : α → Except ε β} {g : α → β}
    (hf : ∀ x, f x = .ok (g x)) (xs : List α) : xs.mapM f = .ok (xs.map g) := by
  induction xs with
  | nil => rfl
  | cons x xs ih =>
    rw [List.mapM_cons, hf, ih]
    rfl

/-- The cluster of a run and its policy. -/
def resolvePolicy (s : Store) (clusterId : UInt64) : Except RunError (Cluster × PolicySnapshot) := do
  let some cluster ← (s.findEnabledCluster clusterId).mapError .store
    | .error (.clusterNotFound clusterId)
  let some policy := cluster.healthCheck
    | .error (.policyMissing clusterId)
  let policy ← policy.snapshot.mapError .policyMalformed
  return (cluster, policy)

theorem resolve_eq_bind (s : Store) (clusterId : UInt64) :
    s.resolve clusterId = (do
      let (cluster, policy) ← s.resolvePolicy clusterId
      let nodes ← (s.findEnabledNodes clusterId).mapError .store
      let targets ← (nodes.mapM s.addressOf).mapError .store
      return { cluster, policy, targets }) := by
  rw [resolve, resolvePolicy]
  cases (s.findEnabledCluster clusterId).mapError RunError.store with
  | error e => rfl
  | ok found =>
    cases found with
    | none => rfl
    | some cluster =>
      simp only [bind, Except.bind]
      cases cluster.healthCheck with
      | none => rfl
      | some policy =>
        simp only
        cases policy.snapshot.mapError RunError.policyMalformed <;> rfl

/-- What a look at the store found: a policy, and the plan of probes. -/
theorem resolve_eq_ok (h : s.resolve clusterId = .ok r) :
    s.resolvePolicy clusterId = .ok (r.cluster, r.policy) ∧ r.targets = s.probePlan clusterId := by
  rw [resolve_eq_bind] at h
  cases hpolicy : s.resolvePolicy clusterId with
  | error e => rw [hpolicy] at h; cases h
  | ok found =>
    rw [hpolicy] at h
    cases hnodes : s.findEnabledNodes clusterId with
    | error e => rw [hnodes] at h; cases h
    | ok nodes =>
      rw [hnodes] at h
      cases htargets : nodes.mapM s.addressOf with
      | error e =>
        simp only [bind, Except.bind, mapError_ok, mapError_error, htargets] at h
        cases h
      | ok targets =>
        simp only [bind, Except.bind, mapError_ok, htargets, pure, Except.pure] at h
        cases h
        have hplan := mapM_eq_ok (fun _ _ => addressOf_eq_ok) htargets
        rw [(scan_eq_ok_iff.mp hnodes).2] at hplan
        exact ⟨rfl, hplan⟩

/-- If every node and every address can be read, only the cluster can be in the way of a run. -/
theorem resolve_of_decodes (hnodes : s.Decodes .nodes) (haddresses : s.Decodes .addresses)
    (clusterId : UInt64) :
    s.resolve clusterId
      = (s.resolvePolicy clusterId).map fun p => ⟨p.1, p.2, s.probePlan clusterId⟩ := by
  rw [resolve_eq_bind, findEnabledNodes, scan_of_decodes hnodes]
  simp only [mapM_of_forall_ok (addressOf_of_decodes haddresses)]
  cases s.resolvePolicy clusterId <;> rfl

theorem resolvePolicy_eq_ok {p : Cluster × PolicySnapshot} (h : s.resolvePolicy clusterId = .ok p) :
    s.record? .clusters (idKey clusterId) = some p.1 ∧ p.1.isOn
      ∧ ∃ policy, p.1.healthCheck = some policy ∧ policy.snapshot = .ok p.2 := by
  rw [resolvePolicy, findEnabledCluster, getCluster] at h
  cases hfind : s.find? .clusters (idKey clusterId) with
  | error e => rw [hfind] at h; cases h
  | ok found =>
    simp only [hfind, Except.map, mapError_ok, bind, Except.bind] at h
    cases hfound : found.filter (·.isOn) with
    | none => rw [hfound] at h; cases h
    | some cluster =>
      obtain ⟨rfl, hon⟩ := Option.filter_eq_some_iff.mp hfound
      rw [hfound] at h
      cases hcheck : cluster.healthCheck with
      | none => simp only [hcheck] at h; cases h
      | some policy =>
        simp only [hcheck] at h
        cases hsnapshot : policy.snapshot with
        | error e => rw [hsnapshot] at h; cases h
        | ok q =>
          rw [hsnapshot] at h
          obtain rfl := Except.ok.inj h
          exact ⟨find?_eq_ok_some_iff.mp hfind, hon, policy, hcheck, hsnapshot⟩

/-- Every run makes at least one attempt. -/
theorem one_le_maxAttempts (h : s.resolve clusterId = .ok r) : 1 ≤ r.policy.maxAttempts.toNat := by
  obtain ⟨-, -, policy, -, hsnapshot⟩ := resolvePolicy_eq_ok (resolve_eq_ok h).1
  exact UInt32.le_iff_toNat_le.mp (Policy.isNormal_of_snapshot hsnapshot).maxAttempts.1

/-! ## Targets -/

theorem mem_enabledNodes :
    n ∈ s.enabledNodes clusterId ↔ n ∈ s.records .nodes ∧ n.clusterId = clusterId ∧ n.isOn := by
  simp [enabledNodes]

theorem mem_eligibleAddresses {a : Address} :
    a ∈ s.eligibleAddresses n
      ↔ a ∈ s.records .addresses ∧ a.nodeId = n.id ∧ a.role = n.role ∧ a.isOn ∧ a.canAccess := by
  simp [eligibleAddresses, and_assoc]

theorem mem_addressed_probePlan :
    t ∈ Run.addressed (s.probePlan clusterId)
      ↔ t.node ∈ s.enabledNodes clusterId ∧ s.probeAddress? t.node = some t.address := by
  obtain ⟨n, a⟩ := t
  simp [Run.addressed, probePlan]

/-- What a target consists of stands in the store under its own numbers. -/
theorem records_of_mem_addressed (hs : s.Keyed) (ht : t ∈ Run.addressed (s.probePlan clusterId)) :
    s.record? .nodes (idKey t.node.id) = some t.node
      ∧ s.record? .addresses (idKey t.address.id) = some t.address
      ∧ t.address.nodeId = t.node.id ∧ t.node.clusterId = clusterId := by
  obtain ⟨hnode, haddress⟩ := mem_addressed_probePlan.mp ht
  obtain ⟨hnode, hcluster, -⟩ := mem_enabledNodes.mp hnode
  obtain ⟨haddress, howner, -⟩ := mem_eligibleAddresses.mp (mem_of_firstOfGreatestOrder haddress)
  exact ⟨(hs.mem_records_iff (c := .nodes)).mp hnode,
    (hs.mem_records_iff (c := .addresses)).mp haddress, howner, hcluster⟩

theorem rooted_of_mem_addressed (hs : s.Keyed) (ht : t ∈ Run.addressed (s.probePlan clusterId)) :
    t.Rooted s := by
  obtain ⟨hnode, haddress, howner, -⟩ := records_of_mem_addressed hs ht
  exact ⟨by rw [hnode]; rfl, by rw [haddress]; rfl, howner⟩

theorem fleet_congr_nodes (h : s.fleet = s'.fleet) :
    s.view .nodes Node.identity = s'.view .nodes Node.identity :=
  congrArg Fleet.nodes h

theorem fleet_congr_addresses (h : s.fleet = s'.fleet) :
    s.view .addresses Address.identity = s'.view .addresses Address.identity :=
  congrArg Fleet.addresses h

end Store

namespace Target.Rooted

variable {s s' : Store} {t t' : Target}

/-- A target stays rooted as long as the fleet stays the same. -/
theorem congr (hfleet : s.fleet = s'.fleet) (h : t.Rooted s) : t.Rooted s' where
  node := by rw [← Store.map_record?_congr (Store.fleet_congr_nodes hfleet)]; exact h.node
  address := by rw [← Store.map_record?_congr (Store.fleet_congr_addresses hfleet)]; exact h.address
  owner := h.owner

/-- Targets of one address are on one node. -/
theorem node_id_eq (h : t.Rooted s) (h' : t'.Rooted s) (haddress : t.address.id = t'.address.id) :
    t.node.id = t'.node.id := by
  have hidentity : t.address.identity = t'.address.identity :=
    Option.some.inj (h.address.symm.trans (haddress ▸ h'.address))
  have howner : t.address.nodeId = t'.address.nodeId := congrArg (fun a => a.nodeId) hidentity
  rw [← h.owner, howner, h'.owner]

/-- What stands in the store in place of the node of a rooted target is that node, health apart. -/
theorem identity_of_record?_node {n : Node} (h : t.Rooted s)
    (hn : s.record? .nodes (idKey t.node.id) = some n) : n.identity = t.node.identity := by
  have hnode := h.node
  rw [hn] at hnode
  exact Option.some.inj hnode

theorem identity_of_record?_address {a : Address} (h : t.Rooted s)
    (ha : s.record? .addresses (idKey t.address.id) = some a) : a.identity = t.address.identity := by
  have haddress := h.address
  rw [ha] at haddress
  exact Option.some.inj haddress

end Target.Rooted

namespace Store

variable {s s' : Store} {clusterId : UInt64}

/-- **The targets of a run are in the order of their nodes.** -/
theorem pairwise_node_lt_addressed (hs : s.Keyed) (clusterId : UInt64) :
    (Run.addressed (s.probePlan clusterId)).Pairwise fun t t' => t.node.id < t'.node.id := by
  have hrecords : (s.records .nodes).Pairwise fun n n' => n.id < n'.id :=
    (hs.pairwise_records (c := .nodes)).imp fun hlt => lt_of_idKey_lt hlt
  rw [Run.addressed, probePlan, List.filterMap_map]
  refine List.Pairwise.filterMap _ ?_ (hrecords.filter _)
  intro n n' hlt t ht t' ht'
  obtain ⟨a, -, rfl⟩ := Option.map_eq_some_iff.mp ht
  obtain ⟨a', -, rfl⟩ := Option.map_eq_some_iff.mp ht'
  exact hlt

/-- **No two targets of a run share a node.** -/
theorem pairwise_node_addressed (hs : s.Keyed) (clusterId : UInt64) :
    (Run.addressed (s.probePlan clusterId)).Pairwise fun t t' => t.node.id ≠ t'.node.id :=
  (pairwise_node_lt_addressed hs clusterId).imp fun hlt => UInt64.ne_of_lt hlt

/-- **No two targets of a run share an address.** -/
theorem pairwise_address_addressed (hs : s.Keyed) (clusterId : UInt64) :
    (Run.addressed (s.probePlan clusterId)).Pairwise fun t t' => t.address.id ≠ t'.address.id := by
  apply (List.Pairwise.and_mem.mp (pairwise_node_addressed hs clusterId)).imp
  rintro t t' ⟨ht, ht', hne⟩ he
  exact hne ((rooted_of_mem_addressed hs ht).node_id_eq (rooted_of_mem_addressed hs ht') he)

/-! ## Stores of one fleet -/

theorem map_eligibleAddresses (s : Store) (n : Node) :
    (s.eligibleAddresses n).map Address.identity
      = ((s.records .addresses).map Address.identity).filter fun a =>
          a.nodeId == n.identity.id && a.role == n.identity.role && a.isOn && a.canAccess := by
  rw [eligibleAddresses, List.filter_map]
  rfl

theorem map_enabledNodes (s : Store) (clusterId : UInt64) :
    (s.enabledNodes clusterId).map Node.identity
      = ((s.records .nodes).map Node.identity).filter fun n => n.clusterId == clusterId && n.isOn := by
  rw [enabledNodes, List.filter_map]
  rfl

theorem map_probeAddress?_congr (h : s.fleet = s'.fleet) {n n' : Node} (hn : n.identity = n'.identity) :
    (s.probeAddress? n).map Address.identity = (s'.probeAddress? n').map Address.identity := by
  have horder (a : Address) : a.identity.order = a.order := rfl
  rw [probeAddress?, probeAddress?, ← firstOfGreatestOrder_map horder, ← firstOfGreatestOrder_map horder,
    map_eligibleAddresses, map_eligibleAddresses, map_records_congr (fleet_congr_addresses h), hn]

/-- Stores of one fleet lead to the same plan of probes, health and backups apart. -/
theorem probePlan_congr (h : s.fleet = s'.fleet) (clusterId : UInt64) :
    (s.probePlan clusterId).map (Prod.map Node.identity (Option.map Address.identity))
      = (s'.probePlan clusterId).map (Prod.map Node.identity (Option.map Address.identity)) := by
  have hnodes : (s.enabledNodes clusterId).map Node.identity
      = (s'.enabledNodes clusterId).map Node.identity := by
    rw [map_enabledNodes, map_enabledNodes, map_records_congr (fleet_congr_nodes h)]
  -- both plans are that of the second store, applied to nodes without health
  have hplan (u : Store) (hu : u.fleet = s'.fleet) :
      (u.probePlan clusterId).map (Prod.map Node.identity (Option.map Address.identity))
        = ((u.enabledNodes clusterId).map Node.identity).map
            fun n => (n, (s'.probeAddress? n).map Address.identity) := by
    rw [probePlan, List.map_map, List.map_map]
    apply List.map_congr_left
    intro n _
    exact congrArg (Prod.mk n.identity) (map_probeAddress?_congr hu rfl)
  rw [hplan s h, hplan s' rfl, hnodes]

theorem map_addressed_congr {plan plan' : List (Node × Option Address)}
    (h : plan.map (Prod.map Node.identity (Option.map Address.identity))
      = plan'.map (Prod.map Node.identity (Option.map Address.identity))) :
    (Run.addressed plan).map Target.identity = (Run.addressed plan').map Target.identity := by
  have hplan (plan : List (Node × Option Address)) :
      (Run.addressed plan).map Target.identity
        = Run.addressed (plan.map (Prod.map Node.identity (Option.map Address.identity))) := by
    rw [Run.addressed, Run.addressed, List.filterMap_map, List.map_filterMap]
    congr 1
    funext ⟨n, a⟩
    cases a <;> rfl
  rw [hplan, hplan, h]

theorem resolvePolicy_congr (h : s.fleet = s'.fleet) (clusterId : UInt64) :
    s.resolvePolicy clusterId = s'.resolvePolicy clusterId := by
  have hclusters : s.table Collection.clusters.table = s'.table Collection.clusters.table :=
    congrArg Fleet.clusters h
  rw [resolvePolicy, resolvePolicy, findEnabledCluster, findEnabledCluster, getCluster, getCluster,
    find?, find?, hclusters]

end Store

/-! ## A small fleet -/

/-- A policy of one attempt, under which one failure takes an address down. -/
def smallPolicy : Policy :=
  { maxAttempts := 1, countUp := 1, countDown := 1, autoDown := true }

def smallSnapshot : PolicySnapshot :=
  { urlTemplate := defaultUrl, method := "GET", statusCodes := [], userAgent := defaultUserAgent,
    timeout := 5000, maxAttempts := 1, tryDelay := 1000, successThreshold := 1, failThreshold := 1,
    autoDown := true, marker := markerValue false }

def smallCluster : Cluster :=
  { id := 1, name := "edge", isOn := true, healthCheck := some smallPolicy, createdAt := 0 }

/-- A node of the small cluster. -/
def smallNode (id : UInt64) : Node :=
  { id, clusterId := 1, name := "node", isOn := true, createdAt := 0 }

/-- The address of a node of the small cluster. -/
def smallAddress (id : UInt64) (ip : String) : Address :=
  { id, nodeId := id, ip, canAccess := true, isOn := true }

def smallTarget (id : UInt64) (ip : String) : Target :=
  ⟨smallNode id, smallAddress id ip⟩

/-- A store with one cluster of two nodes, each with one address. -/
def smallStore : Store :=
  ((((({} : Store).putCluster smallCluster).putNode (smallNode 1)).putNode (smallNode 2)).putAddress
    (smallAddress 1 "10.0.0.1")).putAddress (smallAddress 2 "10.0.0.2")

/-- What a run of the small cluster finds. -/
def smallPlan : Resolved :=
  ⟨smallCluster, smallSnapshot, [(smallNode 1, some (smallAddress 1 "10.0.0.1")),
    (smallNode 2, some (smallAddress 2 "10.0.0.2"))]⟩

namespace Store

theorem wellFormed_smallStore : smallStore.WellFormed :=
  ((((wellFormed_empty.put .clusters rfl).put .nodes rfl).put .nodes rfl).put .addresses rfl).put
    .addresses rfl

/-- Two records under keys in ascending order, in a table that was empty. -/
theorem records_put_put {α : Type} {s : Store} {c : Collection α} [c.codec.Faithful] {key key' : String}
    (h : (s.table c.table).rows = []) (hlt : key < key') (a a' : α) :
    ((s.put c key a).put c key' a').records c = [a, a'] := by
  have hrows : ∀ row ∈ (s.table c.table).rows, row.1 < key := by
    rw [h]
    intro row hrow
    exact absurd hrow List.not_mem_nil
  have hrows' : ∀ row ∈ ((s.put c key a).table c.table).rows, row.1 < key' := by
    intro row hrow
    rw [table_put, Table.mem_rows_put] at hrow
    rcases hrow with rfl | ⟨-, hrow⟩
    · exact hlt
    · rw [h] at hrow
      cases hrow
  rw [records_put_of_forall_lt hrows', records_put_of_forall_lt hrows, records, h]
  rfl

theorem record?_smallStore_cluster : smallStore.record? .clusters (idKey 1) = some smallCluster := by
  rw [smallStore, putAddress, putAddress, putNode, putNode, putCluster]
  rw [record?_put_of_table_ne _ (by decide), record?_put_of_table_ne _ (by decide),
    record?_put_of_table_ne _ (by decide), record?_put_of_table_ne _ (by decide)]
  exact record?_put_self smallCluster

theorem resolve_smallStore : smallStore.resolve 1 = .ok smallPlan := by
  have hs := wellFormed_smallStore
  have hnodes : smallStore.records .nodes = [smallNode 1, smallNode 2] := by
    have hrecords := records_put_put (c := .nodes) (s := ({} : Store).putCluster smallCluster) rfl
      (idKey_lt_idKey (by decide : (1 : UInt64) < 2)) (smallNode 1) (smallNode 2)
    rw [smallStore, putAddress, putAddress, records_put_of_table_ne _ (by decide),
      records_put_of_table_ne _ (by decide)]
    exact hrecords
  have haddresses : smallStore.records .addresses
      = [smallAddress 1 "10.0.0.1", smallAddress 2 "10.0.0.2"] :=
    records_put_put (c := .addresses) rfl (idKey_lt_idKey (by decide : (1 : UInt64) < 2)) _ _
  have hcluster : smallStore.find? .clusters (idKey 1) = .ok (some smallCluster) :=
    find?_of_record? record?_smallStore_cluster
  -- the plan is computed from the records, never from the rows that hold them
  have hplan : smallStore.probePlan 1 = smallPlan.targets := by
    simp only [probePlan, enabledNodes, probeAddress?, eligibleAddresses, hnodes, haddresses]
    rfl
  rw [resolve_of_decodes (hs.decodes .nodes) (hs.decodes .addresses), hplan, resolvePolicy,
    findEnabledCluster, getCluster, hcluster]
  rfl

/-- A store in which a run finds the small fleet has the first target, whose health is new. -/
theorem mem_addressed_of_smallPlan {s : Store} (hs : s.Keyed) (hresolve : s.resolve 1 = .ok smallPlan) :
    smallTarget 1 "10.0.0.1" ∈ Run.addressed (s.probePlan 1) ∧ s.health? (.address 1) = some {} := by
  have htarget : smallTarget 1 "10.0.0.1" ∈ Run.addressed (s.probePlan 1) := by
    rw [← (resolve_eq_ok hresolve).2]
    exact List.mem_cons_self
  exact ⟨htarget, congrArg (Option.map _) (records_of_mem_addressed hs htarget).2.1⟩

end Store

end FleetHealth
