import FleetHealth.Proofs.Inventory.Loading
import FleetHealth.Proofs.Store.Rows
import Mathlib.Data.List.Induction
/-!
# Loading an inventory again

Loading acts on every row by itself: a row ends up with the last record that the inventory has for it,
together with what the service keeps in the record that was there. So it does not matter how often an
inventory is loaded, nor whether the service changes what it keeps before a load or after it.

* `Inventory.row?_written` — loading, row by row.
* `Inventory.validate_eq_ok_iff` — when every reference leads somewhere.
* `Inventory.load_again` — what a load keeps, and what it can be exchanged with.
-/

namespace FleetHealth

/-! ## Writing in place -/

/-- A way to write records in place of those of their keys. What it keeps of an old record it keeps for
good, and a record is its own replacement. -/
structure Replaces {α : Type} (c : Collection α) (keyOf : α → String) (inPlaceOf : α → Option α → α)
    (write : Store → α → Store) : Prop where
  write_eq : ∀ s a, write s a = s.put c (keyOf a) (inPlaceOf a (s.record? c (keyOf a)))
  first : ∀ a, inPlaceOf a none = a
  self : ∀ a, inPlaceOf a (some a) = a
  again : ∀ a b old, inPlaceOf a (some (inPlaceOf b (some old))) = inPlaceOf a (some old)

section Replacing

variable {α : Type} {c : Collection α} {keyOf : α → String} {inPlaceOf : α → Option α → α}
  {write : Store → α → Store} {as : List α} {key : String} {row : Option String} {old : α}

/-- What becomes of a row when records are written one after the other: the last one of its key stands in
place of the one that was there before, or else of the first one of its key. -/
def replacedRow (c : Collection α) (keyOf : α → String) (inPlaceOf : α → Option α → α) (as : List α)
    (key : String) (row : Option String) : Option String :=
  match as.findRev? (keyOf · == key) with
  | some a => some (c.codec.write (inPlaceOf a ((row.bind c.codec.read).or (as.find? (keyOf · == key)))))
  | none => row

/-- What becomes of the record in a row. -/
def latest (keyOf : α → String) (inPlaceOf : α → Option α → α) (as : List α) (key : String) (old : α) :
    α :=
  ((as.findRev? (keyOf · == key)).map fun a => inPlaceOf a (some old)).getD old

theorem find?_of_findRev? {p : α → Bool} {a : α} (h : as.findRev? p = some a) :
    ∃ b, as.find? p = some b := by
  rw [List.findRev?_eq_find?_reverse] at h
  have ha : a ∈ as := List.mem_reverse.mp (List.mem_of_find?_eq_some h)
  exact Option.isSome_iff_exists.mp (List.find?_isSome.mpr ⟨a, ha, List.find?_some h⟩)

theorem find?_of_findRev?_eq_none {p : α → Bool} (h : as.findRev? p = none) : as.find? p = none := by
  rw [List.findRev?_eq_find?_reverse, List.find?_eq_none] at h
  exact List.find?_eq_none.mpr fun a ha => h a (List.mem_reverse.mpr ha)

theorem findRev?_concat (p : α → Bool) (as : List α) (a : α) :
    (as ++ [a]).findRev? p = if p a then some a else as.findRev? p := by
  rw [List.findRev?_eq_find?_reverse, List.findRev?_eq_find?_reverse, List.reverse_concat,
    List.find?_cons]
  cases p a <;> rfl

theorem replacedRow_of_findRev?_eq_none (h : as.findRev? (keyOf · == key) = none) :
    replacedRow c keyOf inPlaceOf as key row = row := by
  unfold replacedRow
  rw [h]

theorem isSome_replacedRow (h : row.isSome) : (replacedRow c keyOf inPlaceOf as key row).isSome := by
  unfold replacedRow
  split
  · rfl
  · exact h

namespace Replaces

variable [c.codec.Faithful]

/-- One more record. -/
theorem replacedRow_concat (h : Replaces c keyOf inPlaceOf write) (as : List α) (a : α) (key : String)
    (row : Option String) :
    replacedRow c keyOf inPlaceOf (as ++ [a]) key row
      = if key = keyOf a then some (c.codec.write
          (inPlaceOf a ((replacedRow c keyOf inPlaceOf as key row).bind c.codec.read)))
        else replacedRow c keyOf inPlaceOf as key row := by
  by_cases hkey : key = keyOf a
  · subst hkey
    unfold replacedRow
    rw [findRev?_concat, List.find?_append]
    simp only [beq_self_eq_true, if_true, List.find?_cons]
    cases hlast : as.findRev? (keyOf · == keyOf a) with
    | none =>
      -- the first record of the key: it stands alone, or in place of the one in the row
      rw [find?_of_findRev?_eq_none hlast, Option.none_or]
      cases row.bind c.codec.read with
      | none => rw [Option.none_or, h.self, h.first]
      | some old => rfl
    | some b =>
      obtain ⟨x, hx⟩ := find?_of_findRev? hlast
      rw [hx, Option.some_or, Option.bind_some, Codec.read_write]
      -- what `b` kept is what `a` keeps
      cases row.bind c.codec.read with
      | none => rw [Option.none_or, h.again]
      | some old => rw [Option.some_or, h.again]
  · have hne : (keyOf a == key) = false := beq_false_of_ne (Ne.symm hkey)
    unfold replacedRow
    rw [findRev?_concat, List.find?_append, if_neg hkey, hne]
    simp only [Bool.false_eq_true, if_false, List.find?_cons, hne, List.find?_nil, Option.or_none]

/-- **Writing records one after the other acts on every row by itself.** -/
theorem row?_foldl (h : Replaces c keyOf inPlaceOf write) (as : List α) (s : Store) (name : TableName)
    (key : String) :
    (as.foldl write s).row? name key
      = if name = c.table then replacedRow c keyOf inPlaceOf as key (s.row? name key)
        else s.row? name key := by
  induction as using List.reverseRecOn with
  | nil => split <;> rfl
  | append_singleton as a ih =>
    rw [List.foldl_append, List.foldl_cons, List.foldl_nil, h.write_eq, Store.row?_put,
      h.replacedRow_concat]
    by_cases hname : name = c.table
    · subst hname
      simp only [true_and, if_true] at ih ⊢
      split
      · rename_i hkey
        subst hkey
        rw [← ih]
        rfl
      · exact ih
    · rw [if_neg hname] at ih ⊢
      rw [if_neg fun hand => hname hand.1, ih]

/-- Writing the same records again changes nothing. -/
theorem replacedRow_replacedRow (h : Replaces c keyOf inPlaceOf write) (as : List α) (key : String)
    (row : Option String) :
    replacedRow c keyOf inPlaceOf as key (replacedRow c keyOf inPlaceOf as key row)
      = replacedRow c keyOf inPlaceOf as key row := by
  cases hlast : as.findRev? (keyOf · == key) with
  | none => rw [replacedRow_of_findRev?_eq_none hlast]
  | some a =>
    obtain ⟨x, hx⟩ := find?_of_findRev? hlast
    unfold replacedRow
    simp only [hlast, hx, Option.bind_some, Codec.read_write, Option.some_or]
    cases row.bind c.codec.read with
    | none => rw [Option.none_or, h.again]
    | some old => rw [Option.some_or, h.again]

omit [c.codec.Faithful] in
theorem latest_of_change (change : α → α) (hchange : ∀ a, inPlaceOf a (some (change old))
    = change (inPlaceOf a (some old))) (as : List α) (key : String) :
    latest keyOf inPlaceOf as key (change old) = change (latest keyOf inPlaceOf as key old) := by
  unfold latest
  cases as.findRev? (keyOf · == key) with
  | none => rfl
  | some a => exact hchange a

theorem read_replacedRow (as : List α) (key : String) (row : Option String) :
    (replacedRow c keyOf inPlaceOf as key row).bind c.codec.read
      = ((as.findRev? (keyOf · == key)).map fun a =>
          inPlaceOf a ((row.bind c.codec.read).or (as.find? (keyOf · == key)))).or
        (row.bind c.codec.read) := by
  unfold replacedRow
  cases as.findRev? (keyOf · == key) with
  | none => rfl
  | some a =>
    rw [Option.bind_some, Codec.read_write]
    rfl

theorem read_replacedRow_of_read (hold : row.bind c.codec.read = some old) (as : List α)
    (key : String) :
    (replacedRow c keyOf inPlaceOf as key row).bind c.codec.read
      = some (latest keyOf inPlaceOf as key old) := by
  rw [read_replacedRow, hold, latest]
  cases as.findRev? (keyOf · == key) <;> rfl

theorem replacedRow_write (old : α) (as : List α) (key : String) :
    replacedRow c keyOf inPlaceOf as key (some (c.codec.write old))
      = some (c.codec.write (latest keyOf inPlaceOf as key old)) := by
  unfold replacedRow latest
  rw [Option.bind_some, Codec.read_write]
  cases as.findRev? (keyOf · == key) <;> rfl

end Replaces

end Replacing

namespace Inventory

variable {s s' : Store} {i : Inventory} {summary : ImportSummary}

/-! ## All records of an inventory -/

theorem replaces_putCluster :
    Replaces .clusters (fun c => idKey c.id) (fun c _ => c) Store.putCluster :=
  ⟨fun _ _ => rfl, fun _ => rfl, fun _ => rfl, fun _ _ _ => rfl⟩

theorem replaces_putThreshold :
    Replaces .thresholds (fun t => idKey t.id) (fun t _ => t) Store.putThreshold :=
  ⟨fun _ _ => rfl, fun _ => rfl, fun _ => rfl, fun _ _ _ => rfl⟩

theorem replaces_writeNode : Replaces .nodes (fun n => idKey n.id) Node.inPlaceOf writeNode := by
  refine ⟨?_, fun _ => rfl, fun _ => rfl, fun _ _ _ => rfl⟩
  intro s n
  rw [writeNode, Store.putNode, Node.inPlaceOf_id]

theorem replaces_writeAddress :
    Replaces .addresses (fun a => idKey a.id) Address.inPlaceOf writeAddress := by
  refine ⟨?_, fun _ => rfl, fun _ => rfl, fun _ _ _ => rfl⟩
  intro s a
  rw [writeAddress, Store.putAddress, Address.inPlaceOf_id]

/-- What a load makes of a row. -/
def rowAfter (i : Inventory) : TableName → String → Option String → Option String
  | .clusters => replacedRow .clusters (fun c => idKey c.id) (fun c _ => c) i.clusters
  | .nodes => replacedRow .nodes (fun n => idKey n.id) Node.inPlaceOf i.nodes
  | .addresses => replacedRow .addresses (fun a => idKey a.id) Address.inPlaceOf i.addresses
  | .thresholds => replacedRow .thresholds (fun t => idKey t.id) (fun t _ => t) i.thresholds
  | .notifications => fun _ row => row
  | .dnsTasks => fun _ row => row

/-- **A load acts on every row by itself.** -/
theorem row?_written (i : Inventory) (s : Store) (name : TableName) (key : String) :
    (i.written s).row? name key = i.rowAfter name key (s.row? name key) := by
  unfold written
  rw [replaces_putThreshold.row?_foldl, replaces_writeAddress.row?_foldl, replaces_writeNode.row?_foldl,
    replaces_putCluster.row?_foldl]
  cases name <;> rfl

theorem rowAfter_rowAfter (i : Inventory) (name : TableName) (key : String) (row : Option String) :
    i.rowAfter name key (i.rowAfter name key row) = i.rowAfter name key row := by
  cases name with
  | clusters => exact replaces_putCluster.replacedRow_replacedRow _ _ _
  | nodes => exact replaces_writeNode.replacedRow_replacedRow _ _ _
  | addresses => exact replaces_writeAddress.replacedRow_replacedRow _ _ _
  | thresholds => exact replaces_putThreshold.replacedRow_replacedRow _ _ _
  | notifications => rfl
  | dnsTasks => rfl

/-- Writing an inventory twice is writing it once. -/
theorem written_written (i : Inventory) (s : Store) : i.written (i.written s) = i.written s := by
  apply Store.ext_row
  intro name key
  rw [row?_written, row?_written, rowAfter_rowAfter]

/-- A row that was there is there after a load. -/
theorem isSome_rowAfter {row : Option String} (h : row.isSome) (i : Inventory) (name : TableName)
    (key : String) : (i.rowAfter name key row).isSome := by
  cases name <;> simp only [rowAfter, isSome_replacedRow h, h]

/-! ## References -/

/-- Whether every reference of an inventory leads to a record of the inventory or of a store. -/
structure Refers (i : Inventory) (s : Store) : Prop where
  nodes : ∀ n ∈ i.nodes, n.clusterId ∈ i.clusters.map (·.id)
    ∨ (s.record? .clusters (idKey n.clusterId)).isSome
  addresses : ∀ a ∈ i.addresses, a.nodeId ∈ i.nodes.map (·.id)
    ∨ (s.record? .nodes (idKey a.nodeId)).isSome
  thresholds : ∀ t ∈ i.thresholds, t.addressId ∈ i.addresses.map (·.id)
    ∨ (s.record? .addresses (idKey t.addressId)).isSome

theorem forM_eq_ok_iff {α ε : Type} {f : α → Except ε Unit} {as : List α} :
    as.forM f = .ok () ↔ ∀ a ∈ as, f a = .ok () := by
  induction as with
  | nil => exact ⟨fun _ a ha => absurd ha List.not_mem_nil, fun _ => rfl⟩
  | cons a rest ih =>
    rw [List.forall_mem_cons, ← ih]
    show (f a >>= fun _ => rest.forM f) = .ok () ↔ _
    cases hf : f a with
    | error e =>
      refine ⟨fun h => ?_, fun h => ?_⟩
      · cases h
      · cases h.1
    | ok _ => exact ⟨fun h => ⟨rfl, h⟩, fun h => h.2⟩

theorem checkReference_eq_ok_iff {α : Type} {c : Collection α} {known : List UInt64} {id : UInt64}
    {missing : InventoryError} :
    checkReference known id (s.find? c (idKey id)) missing = .ok ()
      ↔ id ∈ known ∨ (s.record? c (idKey id)).isSome := by
  unfold checkReference
  rw [Option.isSome_iff_exists]
  split
  · rename_i hknown
    exact ⟨fun _ => .inl (List.contains_iff_mem.mp hknown), fun _ => rfl⟩
  · rename_i hunknown
    have hid : id ∉ known := fun hmem => hunknown (List.contains_iff_mem.mpr hmem)
    simp only [hid, false_or, ← Store.find?_eq_ok_some_iff]
    split <;> simp_all

theorem validate_eq_ok_iff : i.validate s = .ok () ↔ i.Refers s := by
  have hbind {x y : Except InventoryError Unit} :
      (x >>= fun _ => y) = .ok () ↔ x = .ok () ∧ y = .ok () := by
    cases x with
    | error e => exact ⟨fun h => (by cases h), fun h => (by cases h.1)⟩
    | ok _ => exact ⟨fun h => ⟨rfl, h⟩, fun h => h.2⟩
  unfold validate Store.getCluster Store.getNode Store.getAddress
  rw [hbind, hbind]
  simp only [forM_eq_ok_iff, checkReference_eq_ok_iff]
  exact ⟨fun ⟨hn, ha, ht⟩ => ⟨hn, ha, ht⟩, fun h => ⟨h.nodes, h.addresses, h.thresholds⟩⟩

theorem isSome_record?_iff {α : Type} {keyOf : α → String} (hs : s.WellFormed) (c : Collection α)
    [c.Lawful keyOf] (key : String) : (s.record? c key).isSome ↔ (s.row? c.table key).isSome := by
  show ((s.row? c.table key).bind c.codec.read).isSome ↔ _
  cases hrow : s.row? c.table key with
  | none => rfl
  | some value =>
    obtain ⟨a, ha⟩ := hs.decodes c _ (Table.find?_eq_some_iff.mp hrow)
    rw [Option.bind_some, ha]
    exact ⟨fun _ => rfl, fun _ => rfl⟩

/-- References lead somewhere as long as no row is taken away. -/
theorem Refers.mono (h : i.Refers s) (hs : s.WellFormed) (hs' : s'.WellFormed)
    (hrows : ∀ name key, (s.row? name key).isSome → (s'.row? name key).isSome) : i.Refers s' := by
  have hrecord {α : Type} {keyOf : α → String} (c : Collection α) [c.Lawful keyOf] (key : String)
      (hkey : (s.record? c key).isSome) : (s'.record? c key).isSome := by
    rw [isSome_record?_iff hs'] at ⊢
    rw [isSome_record?_iff hs] at hkey
    exact hrows _ _ hkey
  exact ⟨fun n hn => (h.nodes n hn).imp_right (hrecord .clusters _),
    fun a ha => (h.addresses a ha).imp_right (hrecord .nodes _),
    fun t ht => (h.thresholds t ht).imp_right (hrecord .addresses _)⟩

theorem refers_written (hs : s.WellFormed) (h : i.Refers s) : i.Refers (i.written s) := by
  refine h.mono hs (wellFormed_written hs i) ?_
  intro name key hrow
  rw [row?_written]
  exact isSome_rowAfter hrow i name key

/-! ## Changes that can be made before a load or after it -/

/-- Whether a change can be made to a store before a load that leads to another store, or after it, with
the same result and the same store in the end. -/
def Interchanges {β : Type} (i : Inventory) (s s' : Store)
    (change : Store → Except StoreError (β × Store)) : Prop :=
  ∃ b s₁ s₂, change s = .ok (b, s₁) ∧ change s' = .ok (b, s₂) ∧ i.load s₁ = (.ok i.summary, s₂)

section Update

variable {α β : Type} {c : Collection α} {keyOf : α → String} [c.Lawful keyOf]
  {inPlaceOf : α → Option α → α} {as : List α} {key : String} {old : α}

theorem record?_written (hafter : i.rowAfter c.table key = replacedRow c keyOf inPlaceOf as key)
    (hold : s.record? c key = some old) :
    (i.written s).record? c key = some (latest keyOf inPlaceOf as key old) := by
  show ((i.written s).row? c.table key).bind c.codec.read = _
  rw [row?_written, hafter]
  exact Replaces.read_replacedRow_of_read hold as key

/-- Writing the inventory over a record that was changed makes the same change to what it wrote. -/
theorem written_put (hafter : i.rowAfter c.table key = replacedRow c keyOf inPlaceOf as key)
    (change : α → α) (hkept : ∀ a, inPlaceOf a (some (change old)) = change (inPlaceOf a (some old))) :
    i.written (s.put c key (change old))
      = (i.written s).put c key (change (latest keyOf inPlaceOf as key old)) := by
  apply Store.ext_row
  intro name other
  rw [row?_written, Store.row?_put, Store.row?_put, row?_written]
  split
  · rename_i hrow
    obtain ⟨rfl, rfl⟩ := hrow
    rw [hafter, Replaces.replacedRow_write]
    congr 2
    exact Replaces.latest_of_change change hkept as other
  · rfl

/-- A change of what is kept of a record can be made before the inventory is written or after it. -/
theorem interchanges_update (inPlaceOf : α → Option α → α) {change : α → α × β}
    (hs : s.WellFormed) (hrefers : i.Refers s)
    (hafter : i.rowAfter c.table key = replacedRow c keyOf inPlaceOf as key)
    (hold : s.record? c key = some old) (hkey : keyOf (change old).1 = keyOf old)
    (hkept : ∀ a, inPlaceOf a (some (change old).1) = (change (inPlaceOf a (some old))).1)
    (hresult : ∀ a, (change (inPlaceOf a (some old))).2 = (change old).2) :
    i.Interchanges s (i.written s) fun s => (s.update c key change).map (·.2) := by
  have hsame : (change (latest keyOf inPlaceOf as key old)).2 = (change old).2 := by
    unfold latest
    cases as.findRev? (keyOf · == key) with
    | none => rfl
    | some a => exact hresult a
  let s₁ := s.put c key (change old).1
  have hs₁ : s₁.WellFormed := hs.put c ((hs.keyed.key_eq hold).trans hkey.symm)
  -- no reference is lost, as the row is still there
  have hvalid : i.validate s₁ = .ok () := by
    refine validate_eq_ok_iff.mpr (hrefers.mono hs hs₁ ?_)
    intro name other hrow
    rw [Store.row?_put]
    split
    · rfl
    · exact hrow
  refine ⟨(change old).2, s₁, i.written s₁, ?_, ?_, load_of_validate hs₁ hvalid⟩
  · show (s.update c key change).map (·.2) = _
    rw [Store.update_of_record? hold]
    rfl
  · simp only [Store.update_of_record? (record?_written hafter hold), ← hsame, s₁,
      written_put hafter (fun a => (change a).1) hkept]
    rfl

end Update

/-! ## What a load keeps -/

/-- Whether an inventory has a record for a row. -/
def Lists (i : Inventory) (name : TableName) (key : String) : Prop :=
  match name with
  | .clusters => ∃ c ∈ i.clusters, idKey c.id = key
  | .nodes => ∃ n ∈ i.nodes, idKey n.id = key
  | .addresses => ∃ a ∈ i.addresses, idKey a.id = key
  | .thresholds => ∃ t ∈ i.thresholds, idKey t.id = key
  | .notifications => False
  | .dnsTasks => False

theorem rowAfter_of_not_lists {name : TableName} {key : String} (h : ¬i.Lists name key)
    (row : Option String) : i.rowAfter name key row = row := by
  have hnone {α : Type} {as : List α} {keyOf : α → String} (has : ¬∃ a ∈ as, keyOf a = key) :
      as.findRev? (keyOf · == key) = none := by
    rw [List.findRev?_eq_find?_reverse, List.find?_eq_none]
    intro a ha he
    exact has ⟨a, List.mem_reverse.mp ha, beq_iff_eq.mp he⟩
  cases name with
  | clusters => rw [rowAfter, replacedRow_of_findRev?_eq_none (hnone h)]
  | nodes => rw [rowAfter, replacedRow_of_findRev?_eq_none (hnone h)]
  | addresses => rw [rowAfter, replacedRow_of_findRev?_eq_none (hnone h)]
  | thresholds => rw [rowAfter, replacedRow_of_findRev?_eq_none (hnone h)]
  | notifications => rfl
  | dnsTasks => rfl

/-- What becomes of a store when an inventory is loaded into it. -/
structure Refreshes (i : Inventory) (s s' : Store) : Prop where
  /-- A cluster is the last one of its number in the inventory, or else the one that was there. -/
  cluster : ∀ id, s'.record? .clusters (idKey id)
    = (i.clusters.findRev? (·.id == id)).or (s.record? .clusters (idKey id))
  /-- A node that was there keeps its health; the rest of it is that of the last node of its number. -/
  node : ∀ id old, s.record? .nodes (idKey id) = some old → s'.record? .nodes (idKey id)
    = some (((i.nodes.findRev? (·.id == id)).map fun n => { n with health := old.health }).getD old)
  /-- An address that was there keeps its health and its backup. -/
  address : ∀ id old, s.record? .addresses (idKey id) = some old → s'.record? .addresses (idKey id)
    = some (((i.addresses.findRev? (·.id == id)).map fun a =>
        { a with
          health := old.health
          backupIp := old.backupIp
          backupThresholdId := old.backupThresholdId }).getD old)
  /-- So it is with thresholds as with clusters. -/
  threshold : ∀ id, s'.record? .thresholds (idKey id)
    = (i.thresholds.findRev? (·.id == id)).or (s.record? .thresholds (idKey id))
  /-- Rows for which the inventory has no record stay as they are. -/
  other : ∀ name key, ¬i.Lists name key → s'.row? name key = s.row? name key
  notifications : s'.notifications = s.notifications
  dnsTasks : s'.dnsTasks = s.dnsTasks

/-- Records are looked up by their keys just as by their numbers. -/
theorem findRev?_idKey {α : Type} (idOf : α → UInt64) (as : List α) (id : UInt64) :
    as.findRev? (fun a => idKey (idOf a) == idKey id) = as.findRev? (idOf · == id) := by
  congr 1
  funext a
  rw [Bool.eq_iff_iff, beq_iff_eq, beq_iff_eq]
  exact ⟨Store.idKey_injective, congrArg idKey⟩

theorem refreshes_written (i : Inventory) (s : Store) : i.Refreshes s (i.written s) where
  cluster id := by
    show ((i.written s).row? .clusters (idKey id)).bind Cluster.codec.read = _
    rw [row?_written, rowAfter]
    refine (Replaces.read_replacedRow (c := .clusters) _ _ _).trans ?_
    rw [findRev?_idKey, Option.map_id']
    rfl
  node id old hold := by
    show ((i.written s).row? .nodes (idKey id)).bind Node.codec.read = _
    rw [row?_written, rowAfter]
    refine (Replaces.read_replacedRow_of_read (c := .nodes) hold _ _).trans ?_
    rw [latest, findRev?_idKey]
    rfl
  address id old hold := by
    show ((i.written s).row? .addresses (idKey id)).bind Address.codec.read = _
    rw [row?_written, rowAfter]
    refine (Replaces.read_replacedRow_of_read (c := .addresses) hold _ _).trans ?_
    rw [latest, findRev?_idKey]
    rfl
  threshold id := by
    show ((i.written s).row? .thresholds (idKey id)).bind Threshold.codec.read = _
    rw [row?_written, rowAfter]
    refine (Replaces.read_replacedRow (c := .thresholds) _ _ _).trans ?_
    rw [findRev?_idKey, Option.map_id']
    rfl
  other name key h := by rw [row?_written, rowAfter_of_not_lists h]
  notifications := Table.ext_find? (row?_written i s .notifications)
  dnsTasks := Table.ext_find? (row?_written i s .dnsTasks)

/-- **Loading an inventory again changes nothing**, and what the service keeps in the records that were
there is left to the service: it may be changed before a load or after it. -/
theorem load_again (hs : s.WellFormed) (h : i.load s = (.ok summary, s')) :
    i.load s' = (.ok summary, s') ∧ i.Refreshes s s'
      ∧ (∀ (β : Type) (id : UInt64) (change : Health → Health × β),
          (s.record? .nodes (idKey id)).isSome →
          i.Interchanges s s' fun s => (s.updateNodeHealth id change).map (·.2))
      ∧ (∀ (β : Type) (id : UInt64) (change : Health → Health × β),
          (s.record? .addresses (idKey id)).isSome →
          i.Interchanges s s' fun s => (s.updateAddressHealth id change).map (·.2))
      ∧ ∀ id backup, (s.record? .addresses (idKey id)).isSome →
          i.Interchanges s s' fun s => s.setAddressBackup id backup := by
  obtain ⟨hvalid, rfl, rfl⟩ := (load_eq_ok_iff hs).mp h
  have hrefers := validate_eq_ok_iff.mp hvalid
  refine ⟨?_, refreshes_written i s, ?_, ?_, ?_⟩
  · have hagain := load_of_validate (wellFormed_written hs i)
      (validate_eq_ok_iff.mpr (refers_written hs hrefers))
    rw [written_written] at hagain
    exact hagain
  · intro β id change hstored
    obtain ⟨old, hold⟩ := Option.isSome_iff_exists.mp hstored
    exact interchanges_update (c := .nodes) Node.inPlaceOf hs hrefers rfl hold rfl
      (fun _ => rfl) (fun _ => rfl)
  · intro β id change hstored
    obtain ⟨old, hold⟩ := Option.isSome_iff_exists.mp hstored
    exact interchanges_update (c := .addresses) Address.inPlaceOf hs hrefers rfl hold rfl
      (fun _ => rfl) (fun _ => rfl)
  · intro id backup hstored
    obtain ⟨old, hold⟩ := Option.isSome_iff_exists.mp hstored
    exact interchanges_update (c := .addresses) Address.inPlaceOf hs hrefers rfl hold rfl
      (fun _ => rfl) (fun _ => rfl)

/-! ### A node that is named twice -/

/-- A node that is down. -/
def downNode : Node :=
  { id := 1, clusterId := 1, name := "edge", isOn := true, createdAt := 0,
    health := { isUp := false, consecutiveDown := 3 } }

/-- A store with a node that is down. -/
def downStore : Store :=
  (({} : Store).putCluster ⟨1, "fleet", true, none, 0⟩).putNode downNode

/-- Two records for the node, which bring along a health of their own. -/
def namedTwice : Inventory :=
  { nodes := [{ downNode with name := "first", health := {} },
      { downNode with name := "last", health := {} }] }

theorem wellFormed_downStore : downStore.WellFormed :=
  (Store.wellFormed_empty.put .clusters rfl).put .nodes rfl

theorem record?_downStore : downStore.record? .nodes (idKey 1) = some downNode :=
  Store.record?_put_self (c := .nodes) downNode

theorem load_namedTwice : namedTwice.load downStore
    = (.ok namedTwice.summary, namedTwice.written downStore) := by
  refine load_of_validate wellFormed_downStore (validate_eq_ok_iff.mpr ⟨?_, ?_, ?_⟩)
  · have hcluster : (downStore.record? .clusters (idKey 1)).isSome := by
      rw [downStore, Store.putNode, Store.record?_put_of_table_ne _ (by decide), Store.putCluster,
        Store.record?_put_self]
      rfl
    intro n hn
    right
    rcases List.mem_cons.mp hn with rfl | hn
    · exact hcluster
    · obtain rfl := List.mem_singleton.mp hn
      exact hcluster
  · exact fun a ha => absurd ha List.not_mem_nil
  · exact fun t ht => absurd ht List.not_mem_nil

/-- The node gets its last name and is still down, and it may come up before the load or after it. -/
theorem load_again_namedTwice : downStore.WellFormed
    ∧ namedTwice.load downStore = (.ok namedTwice.summary, namedTwice.written downStore)
    ∧ namedTwice.load (namedTwice.written downStore)
      = (.ok namedTwice.summary, namedTwice.written downStore)
    ∧ (namedTwice.written downStore).record? .nodes (idKey 1) = some { downNode with name := "last" }
    ∧ namedTwice.Interchanges downStore (namedTwice.written downStore) fun s =>
        (s.updateNodeHealth 1 fun h => ({ h with isUp := true }, h.isUp)).map (·.2) := by
  obtain ⟨hagain, hrefreshes, hnodes, -, -⟩ := load_again wellFormed_downStore load_namedTwice
  refine ⟨wellFormed_downStore, load_namedTwice, hagain, hrefreshes.node 1 downNode record?_downStore, ?_⟩
  apply hnodes
  rw [record?_downStore]
  rfl

end Inventory

end FleetHealth
