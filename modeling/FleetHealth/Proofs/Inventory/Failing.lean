import FleetHealth.Proofs.Inventory.Rewriting
/-!
# Loads that fail

A load fails before it writes anything if a reference leads nowhere. After that only a row can be in its
way that holds no record: what a node or an address is written over has to be read first. The records
that were written by then stay.

* `Inventory.load_cases` — how a load may end, over any store.
* `Inventory.load_eq_error` — what a load that fails leaves behind.
* `Inventory.exists_partial_load` — it may leave something behind.
-/

namespace FleetHealth

/-! ## Rows that cannot be read -/

namespace Store

variable {α : Type} {s s' : Store} {c : Collection α} {key : String}

/-- Whether there is a row under a key that holds no record. -/
def Unreadable (s : Store) (c : Collection α) (key : String) : Prop :=
  s.find? c key = .error .undecodable

theorem unreadable_or_find?_eq_ok (s : Store) (c : Collection α) (key : String) :
    s.Unreadable c key ∨ ∃ found, s.find? c key = .ok found := by
  cases hrecord : s.record? c key with
  | none =>
    rcases find?_of_record?_eq_none hrecord with hfind | hfind
    · exact .inr ⟨none, hfind⟩
    · exact .inl hfind
  | some a => exact .inr ⟨some a, find?_of_record? hrecord⟩

theorem not_unreadable_of_find?_eq_ok {found : Option α} (h : s.find? c key = .ok found) :
    ¬s.Unreadable c key := by
  intro hbroken
  rw [Unreadable, h] at hbroken
  cases hbroken

/-- Writing a record over a row that can be read makes no difference to what can be read. -/
theorem unreadable_put_iff [c.codec.Faithful] (h : ¬s.Unreadable c key) (a : α) (other : String) :
    (s.put c key a).Unreadable c other ↔ s.Unreadable c other := by
  by_cases hother : other = key
  · subst hother
    have hrecord : (s.put c other a).record? c other = some a := record?_put_self a
    have hfind := find?_of_record? hrecord
    exact ⟨fun hbroken => absurd hbroken (not_unreadable_of_find?_eq_ok hfind),
      fun hbroken => absurd hbroken h⟩
  · have hrow : (s.put c key a).row? c.table other = s.row? c.table other := by
      rw [row?_put, if_neg fun hand => hother hand.2]
    rw [Unreadable, find?_of_row?_eq hrow, Unreadable]

end Store

namespace Inventory

variable {s s' : Store} {i : Inventory} {e : InventoryError}

/-! ## One list of records -/

section Listed

variable {α : Type} {c : Collection α} {keyOf : α → String} {inPlaceOf : α → Option α → α}
  {write : Store → α → Store} {load : Store → α → Except StoreError Store} [c.codec.Faithful]

/-- **Records are written up to the first one whose row cannot be read.** -/
theorem loadEach_cases (hwrite : Replaces c keyOf inPlaceOf write)
    (hload : ∀ s a, load s a = (s.find? c (keyOf a)).map fun _ => write s a) (s : Store) (as : List α) :
    ((∀ a ∈ as, ¬s.Unreadable c (keyOf a)) ∧ loadEach load s as = (.ok (), as.foldl write s))
      ∨ ∃ before a after, as = before ++ a :: after
        ∧ (∀ b ∈ before, ¬s.Unreadable c (keyOf b)) ∧ s.Unreadable c (keyOf a)
        ∧ loadEach load s as = (.error .undecodable, before.foldl write s) := by
  induction as generalizing s with
  | nil => exact .inl ⟨fun a ha => absurd ha List.not_mem_nil, rfl⟩
  | cons a rest ih =>
    rcases s.unreadable_or_find?_eq_ok c (keyOf a) with hbroken | ⟨found, hfind⟩
    · refine .inr ⟨[], a, rest, rfl, fun b hb => absurd hb List.not_mem_nil, hbroken, ?_⟩
      rw [loadEach, hload, hbroken]
      rfl
    · have hread : ¬s.Unreadable c (keyOf a) := Store.not_unreadable_of_find?_eq_ok hfind
      have hsame (key : String) : (write s a).Unreadable c key ↔ s.Unreadable c key := by
        rw [hwrite.write_eq]
        exact Store.unreadable_put_iff hread _ key
      have hstep : loadEach load s (a :: rest) = loadEach load (write s a) rest := by
        rw [loadEach, hload, hfind]
        rfl
      have hrest := ih (write s a)
      simp only [hsame] at hrest
      rw [hstep]
      rcases hrest with ⟨hall, hloaded⟩ | ⟨before, b, after, rfl, hbefore, hbroken, hloaded⟩
      · exact .inl ⟨List.forall_mem_cons.mpr ⟨hread, hall⟩, hloaded⟩
      · exact .inr ⟨a :: before, b, after, rfl, List.forall_mem_cons.mpr ⟨hread, hbefore⟩, hbroken,
          hloaded⟩

end Listed

theorem loadNode_eq_map (s : Store) (n : Node) :
    loadNode s n = (s.find? .nodes (idKey n.id)).map fun _ => writeNode s n := by
  unfold loadNode writeNode
  rw [Store.getNode]
  cases hrecord : s.record? .nodes (idKey n.id) with
  | none => rcases Store.find?_of_record?_eq_none hrecord with hfind | hfind <;> rw [hfind] <;> rfl
  | some old =>
    rw [Store.find?_of_record? hrecord]
    rfl

theorem loadAddress_eq_map (s : Store) (a : Address) :
    loadAddress s a = (s.find? .addresses (idKey a.id)).map fun _ => writeAddress s a := by
  unfold loadAddress writeAddress
  rw [Store.getAddress]
  cases hrecord : s.record? .addresses (idKey a.id) with
  | none => rcases Store.find?_of_record?_eq_none hrecord with hfind | hfind <;> rw [hfind] <;> rfl
  | some old =>
    rw [Store.find?_of_record? hrecord]
    rfl

/-! ## The whole inventory -/

/-- Whether a part of an inventory is what stands before its first node or address whose row cannot be
read. -/
inductive StopsAfter (i : Inventory) (s : Store) : Inventory → Prop
  | node {before after : List Node} {n : Node} : i.nodes = before ++ n :: after →
    (∀ m ∈ before, ¬s.Unreadable .nodes (idKey m.id)) → s.Unreadable .nodes (idKey n.id) →
    StopsAfter i s { clusters := i.clusters, nodes := before }
  | address {before after : List Address} {a : Address} :
    (∀ n ∈ i.nodes, ¬s.Unreadable .nodes (idKey n.id)) → i.addresses = before ++ a :: after →
    (∀ b ∈ before, ¬s.Unreadable .addresses (idKey b.id)) → s.Unreadable .addresses (idKey a.id) →
    StopsAfter i s { clusters := i.clusters, nodes := i.nodes, addresses := before }

/-- Whether every row can be read that a node or an address of an inventory is written over. -/
def Readable (i : Inventory) (s : Store) : Prop :=
  (∀ n ∈ i.nodes, ¬s.Unreadable .nodes (idKey n.id))
    ∧ ∀ a ∈ i.addresses, ¬s.Unreadable .addresses (idKey a.id)

theorem StopsAfter.not_readable {part : Inventory} (h : i.StopsAfter s part) : ¬i.Readable s := by
  rintro ⟨hnodes, haddresses⟩
  cases h with
  | @node before after n hsplit _ hbroken =>
    exact hnodes n (hsplit ▸ List.mem_append_right before List.mem_cons_self) hbroken
  | @address before after a _ hsplit _ hbroken =>
    exact haddresses a (hsplit ▸ List.mem_append_right before List.mem_cons_self) hbroken

/-- **How a load may end**, over any store: it refuses a reference, it writes everything, or it stops at
a row that cannot be read. -/
theorem load_cases (i : Inventory) (s : Store) :
    (∃ e, i.validate s = .error e ∧ i.load s = (.error e, s))
      ∨ i.validate s = .ok ()
        ∧ ((i.Readable s ∧ i.load s = (.ok i.summary, i.written s))
          ∨ ∃ part, i.StopsAfter s part
            ∧ i.load s = (.error (.store .undecodable), part.written s)) := by
  unfold load
  cases hvalid : i.validate s with
  | error e => exact .inl ⟨e, rfl, rfl⟩
  | ok _ =>
    refine .inr ⟨rfl, ?_⟩
    let s₁ := i.clusters.foldl Store.putCluster s
    let s₂ := i.nodes.foldl writeNode s₁
    -- clusters and nodes are written to other tables than those which are read after them
    have hnodes (key : String) : s₁.Unreadable .nodes key ↔ s.Unreadable .nodes key := by
      rw [Store.Unreadable, Store.find?_of_row?_eq (replaces_putCluster.row?_foldl _ s .nodes key)]
      rfl
    have haddresses (key : String) : s₂.Unreadable .addresses key ↔ s.Unreadable .addresses key := by
      have hrow : s₂.row? .addresses key = s.row? .addresses key :=
        (replaces_writeNode.row?_foldl _ s₁ .addresses key).trans
          (replaces_putCluster.row?_foldl _ s .addresses key)
      rw [Store.Unreadable, Store.find?_of_row?_eq hrow]
      rfl
    have hnodesCases := loadEach_cases replaces_writeNode loadNode_eq_map s₁ i.nodes
    have haddressesCases := loadEach_cases replaces_writeAddress loadAddress_eq_map s₂ i.addresses
    simp only [hnodes] at hnodesCases
    simp only [haddresses] at haddressesCases
    rcases hnodesCases with ⟨hread, hloaded⟩ | ⟨before, n, after, hsplit, hbefore, hbroken, hloaded⟩
    · rcases haddressesCases with
        ⟨hread', hloaded'⟩ | ⟨before, a, after, hsplit, hbefore, hbroken, hloaded'⟩
      · refine .inl ⟨⟨hread, hread'⟩, ?_⟩
        simp only [s₁, s₂] at hloaded hloaded'
        simp only [hloaded, hloaded']
        rfl
      · refine .inr ⟨_, .address hread hsplit hbefore hbroken, ?_⟩
        simp only [s₁, s₂] at hloaded hloaded'
        simp only [hloaded, hloaded']
        rfl
    · refine .inr ⟨_, .node hsplit hbefore hbroken, ?_⟩
      simp only [s₁] at hloaded
      simp only [hloaded]
      rfl

/-- **What a load that fails leaves behind**: nothing new if a reference was refused, or else the records
before the first one whose row could not be read. If every row can be read, a failed load leaves the
store as it was. -/
theorem load_eq_error (h : i.load s = (.error e, s')) :
    (i.validate s = .error e ∧ s' = s
      ∨ i.validate s = .ok () ∧ e = .store .undecodable
        ∧ ∃ part, i.StopsAfter s part ∧ s' = part.written s ∧ part.Refreshes s s'
          ∧ s'.thresholds = s.thresholds)
    ∧ (i.Readable s → s' = s) := by
  rcases i.load_cases s with ⟨e, hvalid, hload⟩ | ⟨hvalid, ⟨-, hload⟩ | ⟨part, hstops, hload⟩⟩
  · rw [hload] at h
    cases h
    exact ⟨.inl ⟨hvalid, rfl⟩, fun _ => rfl⟩
  · rw [hload] at h
    cases h
  · rw [hload] at h
    cases h
    refine ⟨.inr ⟨hvalid, rfl, part, hstops, rfl, refreshes_written part s, ?_⟩, ?_⟩
    · -- the thresholds come last, so none was written
      have hnone : part.thresholds = [] := by cases hstops <;> rfl
      apply Table.ext_find?
      intro key
      refine (refreshes_written part s).other .thresholds key ?_
      rintro ⟨t, ht, -⟩
      rw [hnone] at ht
      cases ht
    · exact fun hread => absurd hread hstops.not_readable

/-! ### A node whose row is broken -/

/-- A store with a row that holds no node. -/
def brokenStore : Store :=
  ({} : Store).putRow .nodes (idKey 1) "\x7b"

/-- A cluster with one node. -/
def oneNode : Inventory :=
  { clusters := [⟨1, "edge", true, none, 0⟩],
    nodes := [{ id := 1, clusterId := 1, name := "node", isOn := true, createdAt := 0 }] }

theorem unreadable_brokenStore : brokenStore.Unreadable .nodes (idKey 1) := by
  have hrow : (brokenStore.table .nodes).find? (idKey 1) = some "\x7b" := Table.find?_put_self _ _ _
  have hread : Node.codec.read "\x7b" = none := by cbv
  unfold Store.Unreadable Store.find?
  rw [show Collection.nodes.table = .nodes from rfl, hrow]
  exact congrArg (Except.map some) (Store.decodeRow_of_read_eq_none hread)

theorem validate_oneNode : oneNode.validate brokenStore = .ok () :=
  validate_eq_ok_iff.mpr ⟨by decide, by decide, by decide⟩

/-- The cluster is written, and then its node cannot be. -/
theorem load_oneNode : oneNode.load brokenStore
    = (.error (.store .undecodable), brokenStore.putCluster ⟨1, "edge", true, none, 0⟩) := by
  have hid : ∀ n ∈ oneNode.nodes, n.id = 1 := by decide
  have hall : ∀ n ∈ oneNode.nodes, brokenStore.Unreadable .nodes (idKey n.id) := by
    intro n hn
    rw [hid n hn]
    exact unreadable_brokenStore
  have hnone : ¬∀ n ∈ oneNode.nodes, ¬brokenStore.Unreadable .nodes (idKey n.id) :=
    fun hread => hread _ List.mem_cons_self (hall _ List.mem_cons_self)
  rcases oneNode.load_cases brokenStore with ⟨e, hrefused, -⟩ | ⟨-, ⟨hread, -⟩ | ⟨part, hstops, hload⟩⟩
  · rw [validate_oneNode] at hrefused
    cases hrefused
  · exact absurd hread.1 hnone
  · rw [hload]
    cases hstops with
    | @node before after n hsplit hbefore hbroken =>
      cases before with
      | nil => rfl
      | cons m rest =>
        have hm : m ∈ oneNode.nodes := hsplit ▸ List.mem_cons_self
        exact absurd (hall m hm) (hbefore m List.mem_cons_self)
    | address hread _ _ _ => exact absurd hread hnone

theorem load_eq_error_oneNode :
    oneNode.load brokenStore
      = (.error (.store .undecodable), brokenStore.putCluster ⟨1, "edge", true, none, 0⟩)
    ∧ ∃ part, oneNode.StopsAfter brokenStore part
      ∧ brokenStore.putCluster ⟨1, "edge", true, none, 0⟩ = part.written brokenStore
      ∧ ¬oneNode.Readable brokenStore := by
  refine ⟨load_oneNode, ?_⟩
  rcases (load_eq_error load_oneNode).1 with ⟨hrefused, -⟩ | ⟨-, -, part, hstops, hstore, -⟩
  · rw [validate_oneNode] at hrefused
    cases hrefused
  · exact ⟨part, hstops, hstore, hstops.not_readable⟩

/-- **A load that fails may leave records behind.** -/
theorem exists_partial_load :
    ¬∀ (i : Inventory) (s s' : Store) (e : InventoryError), i.load s = (.error e, s') → s' = s := by
  intro hall
  have hsame := hall _ _ _ _ load_oneNode
  have hwritten : (brokenStore.putCluster ⟨1, "edge", true, none, 0⟩).clusters.rows.length = 1 := by
    rfl
  rw [hsame] at hwritten
  cases hwritten

end Inventory

end FleetHealth
