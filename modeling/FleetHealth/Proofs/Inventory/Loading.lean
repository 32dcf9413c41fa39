import FleetHealth.Inventory.Basic
import FleetHealth.Proofs.Store.Health
/-!
# Loading an inventory

Over a well-formed store an inventory without dangling references is written record by record, each with
what the service keeps in the record that it replaces. An address that was there before keeps its health
and its backup, whatever else becomes of it.

* `Inventory.written`, `Inventory.load_eq_ok_iff` — what a load that succeeds leaves behind.
* `Inventory.reloaded_written` — what becomes of the health and the backup of every address.
-/

namespace FleetHealth

/-- The node with what the service keeps in the one that it replaces. -/
def Node.inPlaceOf (n : Node) : Option Node → Node
  | some old => { n with health := old.health }
  | none => n

/-- The address with what the service keeps in the one that it replaces. -/
def Address.inPlaceOf (a : Address) : Option Address → Address
  | some old =>
    { a with health := old.health, backupIp := old.backupIp, backupThresholdId := old.backupThresholdId }
  | none => a

/-- What the service keeps in an address. -/
def Address.upkeep (a : Address) : Health × Option String × Option UInt64 :=
  (a.health, a.backupIp, a.backupThresholdId)

@[simp] theorem Node.inPlaceOf_id (n : Node) (old : Option Node) : (n.inPlaceOf old).id = n.id := by
  cases old <;> rfl

@[simp] theorem Address.inPlaceOf_id (a : Address) (old : Option Address) :
    (a.inPlaceOf old).id = a.id := by
  cases old <;> rfl

@[simp] theorem Node.inPlaceOf_clusterId (n : Node) (old : Option Node) :
    (n.inPlaceOf old).clusterId = n.clusterId := by
  cases old <;> rfl

@[simp] theorem Address.inPlaceOf_nodeId (a : Address) (old : Option Address) :
    (a.inPlaceOf old).nodeId = a.nodeId := by
  cases old <;> rfl

theorem Address.upkeep_identity (a : Address) : a.identity.upkeep = ({}, none, none) :=
  rfl

theorem Address.upkeep_eq_iff {a : Address} {kept : Health × Option String × Option UInt64} :
    a.upkeep = kept ↔ a.health = kept.1 ∧ a.backupIp = kept.2.1 ∧ a.backupThresholdId = kept.2.2 := by
  simp only [upkeep, Prod.ext_iff]

namespace Inventory

variable {s s' s'' : Store} {i : Inventory} {summary : ImportSummary}

/-- The store with a node in place of the one of its number. -/
def writeNode (s : Store) (n : Node) : Store :=
  s.putNode (n.inPlaceOf (s.record? .nodes (idKey n.id)))

/-- The store with an address in place of the one of its number. -/
def writeAddress (s : Store) (a : Address) : Store :=
  s.putAddress (a.inPlaceOf (s.record? .addresses (idKey a.id)))

/-- The store with all records of an inventory. -/
def written (i : Inventory) (s : Store) : Store :=
  let s := i.clusters.foldl Store.putCluster s
  let s := i.nodes.foldl writeNode s
  let s := i.addresses.foldl writeAddress s
  i.thresholds.foldl Store.putThreshold s

/-! ## Writing -/

theorem wellFormed_foldl {α : Type} {write : Store → α → Store}
    (hwrite : ∀ s a, s.WellFormed → (write s a).WellFormed) (hs : s.WellFormed) (as : List α) :
    (as.foldl write s).WellFormed := by
  induction as generalizing s with
  | nil => exact hs
  | cons a rest ih => exact ih (hwrite s a hs)

theorem wellFormed_putCluster (s : Store) (c : Cluster) (hs : s.WellFormed) : (s.putCluster c).WellFormed :=
  hs.put .clusters rfl

theorem wellFormed_putThreshold (s : Store) (t : Threshold) (hs : s.WellFormed) :
    (s.putThreshold t).WellFormed :=
  hs.put .thresholds rfl

theorem wellFormed_writeNode (s : Store) (n : Node) (hs : s.WellFormed) : (writeNode s n).WellFormed :=
  hs.put .nodes rfl

theorem wellFormed_writeAddress (s : Store) (a : Address) (hs : s.WellFormed) :
    (writeAddress s a).WellFormed :=
  hs.put .addresses rfl

theorem wellFormed_written (hs : s.WellFormed) (i : Inventory) : (i.written s).WellFormed := by
  unfold written
  apply wellFormed_foldl wellFormed_putThreshold
  apply wellFormed_foldl wellFormed_writeAddress
  apply wellFormed_foldl wellFormed_writeNode
  exact wellFormed_foldl wellFormed_putCluster hs _

theorem loadNode_of_wellFormed (hs : s.WellFormed) (n : Node) : loadNode s n = .ok (writeNode s n) := by
  unfold loadNode writeNode
  rw [Store.getNode]
  cases hn : s.record? .nodes (idKey n.id) with
  | none =>
    rw [hs.find?_of_record?_eq_none .nodes hn]
    rfl
  | some old =>
    rw [Store.find?_of_record? hn]
    rfl

theorem loadAddress_of_wellFormed (hs : s.WellFormed) (a : Address) :
    loadAddress s a = .ok (writeAddress s a) := by
  unfold loadAddress writeAddress
  rw [Store.getAddress]
  cases ha : s.record? .addresses (idKey a.id) with
  | none =>
    rw [hs.find?_of_record?_eq_none .addresses ha]
    rfl
  | some old =>
    rw [Store.find?_of_record? ha]
    rfl

/-- Records that can be written one by one over well-formed stores can be written all. -/
theorem loadEach_of_wellFormed {α : Type} {load : Store → α → Except StoreError Store}
    {write : Store → α → Store} (hload : ∀ s, s.WellFormed → ∀ a, load s a = .ok (write s a))
    (hwrite : ∀ s a, s.WellFormed → (write s a).WellFormed) (hs : s.WellFormed) (as : List α) :
    loadEach load s as = (.ok (), as.foldl write s) := by
  induction as generalizing s with
  | nil => rfl
  | cons a rest ih =>
    rw [loadEach, hload s hs a]
    exact ih (hwrite s a hs)

/-- **Over a well-formed store nothing but a dangling reference is in the way of a load.** -/
theorem load_of_validate (hs : s.WellFormed) (hvalid : i.validate s = .ok ()) :
    i.load s = (.ok i.summary, i.written s) := by
  have hclusters := wellFormed_foldl wellFormed_putCluster hs i.clusters
  have hnodes := wellFormed_foldl wellFormed_writeNode hclusters i.nodes
  have hwritten := loadEach_of_wellFormed (fun _ => loadNode_of_wellFormed) wellFormed_writeNode hclusters
    i.nodes
  have hwritten' := loadEach_of_wellFormed (fun _ => loadAddress_of_wellFormed) wellFormed_writeAddress
    hnodes i.addresses
  rw [load, hvalid]
  simp only [hwritten, hwritten']
  rfl

theorem load_eq_ok_iff (hs : s.WellFormed) :
    i.load s = (.ok summary, s') ↔ i.validate s = .ok () ∧ summary = i.summary ∧ s' = i.written s := by
  constructor
  · intro h
    cases hvalid : i.validate s with
    | error e =>
      rw [load, hvalid] at h
      cases h
    | ok _ =>
      rw [load_of_validate hs hvalid] at h
      cases h
      exact ⟨rfl, rfl, rfl⟩
  · rintro ⟨hvalid, rfl, rfl⟩
    exact load_of_validate hs hvalid

/-! ## What the service keeps -/

/-- Whether an address of one store has, in another one, what the service kept in it there, and nothing
of that if it was not there. -/
def Reloaded (s s' : Store) : Prop :=
  ∀ id, (s'.record? .addresses (idKey id)).map Address.upkeep
      = (s.record? .addresses (idKey id)).map Address.upkeep
    ∨ s.record? .addresses (idKey id) = none
      ∧ (s'.record? .addresses (idKey id)).map Address.upkeep = some ({}, none, none)

theorem Reloaded.refl (s : Store) : Reloaded s s :=
  fun _ => .inl rfl

theorem Reloaded.trans (h : Reloaded s s') (h' : Reloaded s' s'') : Reloaded s s'' := by
  intro id
  rcases h' id with hsame' | ⟨hnone', hbare'⟩
  · rcases h id with hsame | ⟨hnone, hbare⟩
    · exact .inl (hsame'.trans hsame)
    · exact .inr ⟨hnone, hsame'.trans hbare⟩
  · rcases h id with hsame | ⟨-, hbare⟩
    · -- an address is never taken away, so it was not there before either
      rw [hnone', Option.map_none, eq_comm, Option.map_eq_none_iff] at hsame
      exact .inr ⟨hsame, hbare'⟩
    · rw [hnone'] at hbare
      cases hbare

theorem Reloaded.foldl {α : Type} {write : Store → α → Store} {as : List α}
    (hwrite : ∀ s, ∀ a ∈ as, Reloaded s (write s a)) : Reloaded s (as.foldl write s) := by
  induction as generalizing s with
  | nil => exact .refl s
  | cons a rest ih =>
    have hrest := ih (s := write s a) fun s a ha => hwrite s a (List.mem_cons_of_mem _ ha)
    exact (hwrite s a List.mem_cons_self).trans hrest

theorem reloaded_put_of_table_ne {α : Type} {c : Collection α} {key : String} (a : α)
    (hc : Collection.addresses.table ≠ c.table) : Reloaded s (s.put c key a) := by
  intro id
  rw [Store.record?_put_of_table_ne a hc]
  exact .inl rfl

theorem reloaded_writeAddress {a : Address} (hbare : a.identity = a) : Reloaded s (writeAddress s a) := by
  intro id
  unfold writeAddress Store.putAddress
  rw [Address.inPlaceOf_id]
  by_cases hid : id = a.id
  · subst hid
    rw [Store.record?_put_self]
    cases ha : s.record? .addresses (idKey a.id) with
    | none =>
      refine .inr ⟨rfl, ?_⟩
      show some a.upkeep = _
      rw [← hbare, a.upkeep_identity]
    | some old => exact .inl rfl
  · rw [Store.record?_put_ne _ fun he => hid (Store.idKey_injective he)]
    exact .inl rfl

/-- **A load leaves the health and the backup of every address as they were**, if its own addresses bring
none along. -/
theorem reloaded_written (s : Store) (hbare : ∀ a ∈ i.addresses, a.identity = a) :
    Reloaded s (i.written s) := by
  have hclusters : Reloaded s (i.clusters.foldl Store.putCluster s) :=
    .foldl fun s c _ => reloaded_put_of_table_ne c (by decide)
  have hnodes (s : Store) : Reloaded s (i.nodes.foldl writeNode s) :=
    .foldl fun s n _ => reloaded_put_of_table_ne _ (by decide)
  have haddresses (s : Store) : Reloaded s (i.addresses.foldl writeAddress s) :=
    .foldl fun s a ha => reloaded_writeAddress (hbare a ha)
  have hthresholds (s : Store) : Reloaded s (i.thresholds.foldl Store.putThreshold s) :=
    .foldl fun s t _ => reloaded_put_of_table_ne t (by decide)
  exact ((hclusters.trans (hnodes _)).trans (haddresses _)).trans (hthresholds _)

end Inventory

end FleetHealth
