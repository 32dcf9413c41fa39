import FleetHealth.Proofs.Inventory.Rewriting
/-!
# What is refused of an inventory

Before an inventory is loaded, the references of its records are looked up one after the other: those of
the nodes to their clusters, of the addresses to their nodes and of the thresholds to their addresses. The
first one that leads nowhere is complained of, and if there is none the inventory is accepted. A threshold
also says on which node it stands; that is not looked up.

* `Inventory.validate_eq_forM` — the check, reference by reference.
* `Inventory.validate_exact` — what is accepted, and what is complained of otherwise.
* `Inventory.not_validate_exact_thresholds` — the node of a threshold may be one that there is not.
-/

namespace FleetHealth

/-- As every row of a well-formed store can be read, a number is either found or missing. -/
theorem Inventory.checkReference_cases {α : Type} {keyOf : α → String} {s : Store} (hs : s.WellFormed)
    (c : Collection α) [c.Lawful keyOf] (known : List UInt64) (id : UInt64) (missing : InventoryError) :
    checkReference known id (s.find? c (idKey id)) missing = .ok ()
      ∨ checkReference known id (s.find? c (idKey id)) missing = .error missing := by
  unfold checkReference
  rw [Store.find?_of_decodes (hs.decodes c)]
  split
  · exact .inl rfl
  · cases s.record? c (idKey id) with
    | none => exact .inr rfl
    | some a => exact .inl rfl

/-- A reference that is looked up. -/
inductive Reference where
  /-- Of a node to its cluster. -/
  | cluster (n : Node)
  /-- Of an address to its node. -/
  | node (a : Address)
  /-- Of a threshold to its address. -/
  | address (t : Threshold)

namespace Reference

/-- The record that makes the reference. -/
def holder : Reference → String × UInt64
  | cluster n => ("node", n.id)
  | node a => ("address", a.id)
  | address t => ("threshold", t.id)

/-- The record that it names. -/
def target : Reference → String × UInt64
  | cluster n => ("cluster", n.clusterId)
  | node a => ("node", a.nodeId)
  | address t => ("address", t.addressId)

/-- Whether it leads to a record of an inventory or of a store. -/
def Resolves (i : Inventory) (s : Store) : Reference → Prop
  | cluster n => n.clusterId ∈ i.clusters.map (·.id) ∨ (s.record? .clusters (idKey n.clusterId)).isSome
  | node a => a.nodeId ∈ i.nodes.map (·.id) ∨ (s.record? .nodes (idKey a.nodeId)).isSome
  | address t => t.addressId ∈ i.addresses.map (·.id)
    ∨ (s.record? .addresses (idKey t.addressId)).isSome

/-- The error if it leads nowhere. -/
def error : Reference → InventoryError
  | cluster n => .unknownCluster n.id n.clusterId
  | node a => .unknownNode a.id a.nodeId
  | address t => .unknownAddress t.id t.addressId

/-- How it is complained of. -/
def complaint (r : Reference) : String :=
  s!"{r.holder.1} {r.holder.2.toNat} refers to unknown {r.target.1} {r.target.2.toNat}"

theorem message_error (r : Reference) : r.error.message = r.complaint := by
  apply String.toList_inj.mp
  cases r <;>
    simp [error, InventoryError.message, complaint, holder, target, ToString.toString]

/-- Looks a reference up in an inventory and a store. -/
def check (i : Inventory) (s : Store) : Reference → Except InventoryError Unit
  | r@(cluster n) =>
    Inventory.checkReference (i.clusters.map (·.id)) n.clusterId (s.getCluster n.clusterId) r.error
  | r@(node a) => Inventory.checkReference (i.nodes.map (·.id)) a.nodeId (s.getNode a.nodeId) r.error
  | r@(address t) =>
    Inventory.checkReference (i.addresses.map (·.id)) t.addressId (s.getAddress t.addressId) r.error

variable {i : Inventory} {s : Store} {r : Reference} {e : InventoryError}

theorem check_eq_ok_iff : r.check i s = .ok () ↔ r.Resolves i s := by
  cases r <;> exact Inventory.checkReference_eq_ok_iff

/-- Over a well-formed store a look-up fails in one way only. -/
theorem check_eq_error_iff (hs : s.WellFormed) : r.check i s = .error e ↔ ¬r.Resolves i s ∧ e = r.error := by
  have hcheck : r.check i s = .ok () ∨ r.check i s = .error r.error := by
    cases r with
    | cluster n => exact Inventory.checkReference_cases hs .clusters _ _ _
    | node a => exact Inventory.checkReference_cases hs .nodes _ _ _
    | address t => exact Inventory.checkReference_cases hs .addresses _ _ _
  rw [← check_eq_ok_iff]
  rcases hcheck with hok | hrefused
  · rw [hok]
    simp
  · rw [hrefused]
    simp [eq_comm]

end Reference

namespace Inventory

variable {i : Inventory} {s : Store} {e : InventoryError}

/-- The references that are looked up, in this order. -/
def references (i : Inventory) : List Reference :=
  i.nodes.map .cluster ++ i.addresses.map .node ++ i.thresholds.map .address

theorem validate_eq_forM (i : Inventory) (s : Store) :
    i.validate s = i.references.forM (Reference.check i s) := by
  have happend (rs : List Reference) {rest : List Reference} :
      (rs ++ rest).forM (Reference.check i s)
        = rs.forM (Reference.check i s) >>= fun _ => rest.forM (Reference.check i s) :=
    List.forM_append
  have hmap {α : Type} (kind : α → Reference) (as : List α) :
      (as.map kind).forM (Reference.check i s) = as.forM fun a => (kind a).check i s :=
    List.forM_map
  rw [references, List.append_assoc, happend, happend, hmap, hmap, hmap]
  rfl

/-- A list is gone through up to the first element that fails. -/
theorem forM_eq_error_iff {α ε : Type} {f : α → Except ε Unit} {as : List α} {e : ε} :
    as.forM f = .error e ↔ ∃ before a after, as = before ++ a :: after
      ∧ (∀ b ∈ before, f b = .ok ()) ∧ f a = .error e := by
  induction as with
  | nil =>
    constructor
    · intro h
      cases h
    · rintro ⟨before, a, after, hsplit, -⟩
      cases before <;> cases hsplit
  | cons a rest ih =>
    have hcons : (a :: rest).forM f = f a >>= fun _ => rest.forM f := rfl
    rw [hcons]
    cases hf : f a with
    | error e' =>
      constructor
      · rintro ⟨⟩
        exact ⟨[], a, rest, rfl, nofun, hf⟩
      · rintro ⟨before, b, after, hsplit, hbefore, hfails⟩
        cases before with
        | nil =>
          cases hsplit
          exact hf.symm.trans hfails
        | cons _ _ =>
          cases hsplit
          cases hf.symm.trans (hbefore a List.mem_cons_self)
    | ok _ =>
      refine ih.trans ⟨?_, ?_⟩
      · rintro ⟨before, b, after, rfl, hbefore, hfails⟩
        exact ⟨a :: before, b, after, rfl, List.forall_mem_cons.mpr ⟨hf, hbefore⟩, hfails⟩
      · rintro ⟨before, b, after, hsplit, hbefore, hfails⟩
        cases before with
        | nil =>
          cases hsplit
          cases hf.symm.trans hfails
        | cons _ before =>
          cases hsplit
          exact ⟨before, b, after, rfl, (List.forall_mem_cons.mp hbefore).2, hfails⟩

/-- **The check of an inventory is exact**, over any well-formed store: it is passed if every reference
that is looked up leads somewhere, and else the first one is complained of that does not; then nothing is
loaded. -/
theorem validate_exact (hs : s.WellFormed) (i : Inventory) :
    (i.validate s = .ok () ↔ ∀ r ∈ i.references, r.Resolves i s)
    ∧ ∀ e, i.validate s = .error e →
      i.load s = (.error e, s) ∧ ∃ before r after, i.references = before ++ r :: after
        ∧ (∀ b ∈ before, b.Resolves i s) ∧ ¬r.Resolves i s ∧ e = r.error ∧ e.message = r.complaint := by
  refine ⟨?_, ?_⟩
  · rw [validate_eq_forM, forM_eq_ok_iff]
    simp only [Reference.check_eq_ok_iff]
  · intro e hrefused
    refine ⟨by rw [load, hrefused], ?_⟩
    rw [validate_eq_forM, forM_eq_error_iff] at hrefused
    obtain ⟨before, r, after, hsplit, hbefore, hfails⟩ := hrefused
    obtain ⟨hnowhere, rfl⟩ := (Reference.check_eq_error_iff hs).mp hfails
    exact ⟨before, r, after, hsplit, fun b hb => Reference.check_eq_ok_iff.mp (hbefore b hb), hnowhere,
      rfl, r.message_error⟩

/-- A node, an address of it, and an address of a node that there is not. -/
def straySite : Inventory :=
  { clusters := [{ id := 1, name := "edge", isOn := true, healthCheck := none, createdAt := 0 }]
    nodes := [{ id := 1, clusterId := 1, name := "node", isOn := true, createdAt := 0 }]
    addresses := [{ id := 1, nodeId := 1, ip := "10.0.0.1", canAccess := true, isOn := true },
      { id := 2, nodeId := 9, ip := "10.0.0.2", canAccess := true, isOn := true }] }

/-- The second address is complained of, and the store stays empty. -/
theorem validate_exact_straySite :
    ∃ e, straySite.validate {} = .error e ∧ straySite.load {} = (.error e, {})
      ∧ e.message = "address 2 refers to unknown node 9" := by
  obtain ⟨-, hrefused⟩ := validate_exact Store.wellFormed_empty straySite
  have hvalidate : straySite.validate {} = .error (.unknownNode 2 9) := rfl
  exact ⟨_, hvalidate, (hrefused _ hvalidate).1, rfl⟩

/-! ### The node of a threshold -/

/-- A node with an address, and a threshold that names this address and a node that there is not. -/
def strayThreshold : Inventory :=
  { clusters := [{ id := 1, name := "edge", isOn := true, healthCheck := none, createdAt := 0 }]
    nodes := [{ id := 1, clusterId := 1, name := "node", isOn := true, createdAt := 0 }]
    addresses := [{ id := 10, nodeId := 1, ip := "10.0.0.1", canAccess := true, isOn := true }]
    thresholds := [{ id := 5, nodeId := 9, addressId := 10, backupIp := "10.9.9.9" }] }

/-- **That an inventory is accepted does not mean that all its references lead somewhere**: the node of a
threshold is not looked up. -/
theorem not_validate_exact_thresholds :
    ¬∀ (i : Inventory) (s : Store), s.WellFormed → (i.validate s = .ok () ↔
      (∀ r ∈ i.references, r.Resolves i s)
      ∧ ∀ t ∈ i.thresholds, t.nodeId ∈ i.nodes.map (·.id) ∨ (s.record? .nodes (idKey t.nodeId)).isSome) := by
  intro h
  obtain ⟨-, hnodes⟩ := (h strayThreshold {} Store.wellFormed_empty).mp rfl
  have hstray : (9 : UInt64) ∈ [(1 : UInt64)] ∨ (none : Option Node).isSome :=
    hnodes _ List.mem_cons_self
  revert hstray
  decide

end Inventory

end FleetHealth
