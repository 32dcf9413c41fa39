import FleetHealth.Proofs.Store.View
import Mathlib.Data.List.Sort
/-!
# Rows under their own keys

A row stands under its own key if the record it holds says so. In a well-formed store every row holds a
record and stands under its own key; in a keyed store those rows do that hold a record at all.

* `Store.Keyed.pairwise_records` — records of a keyed store differ by their keys.
* `Store.WellFormed.put` — a store stays well-formed when a record is written under its own key.
-/

namespace FleetHealth

/-- The key that the record in a row of a table asks for, if the row holds one. -/
def TableName.keyOf? (name : TableName) (value : String) : Option String :=
  match name with
  | .clusters => (Cluster.codec.read value).map fun c => idKey c.id
  | .nodes => (Node.codec.read value).map fun n => idKey n.id
  | .addresses => (Address.codec.read value).map fun a => idKey a.id
  | .notifications => (Notification.codec.read value).map fun n => idKey n.id
  | .dnsTasks => (DnsTask.codec.read value).map fun t => dnsTaskKey t.nodeId t.taskType
  | .thresholds => (Threshold.codec.read value).map fun t => idKey t.id

/-- A collection whose records are read back and determine their keys. -/
class Collection.Lawful {α : Type} (c : Collection α) (keyOf : outParam (α → String)) : Prop where
  faithful : c.codec.Faithful
  keyOf?_eq : ∀ value, c.table.keyOf? value = (c.codec.read value).map keyOf

namespace Collection

instance : clusters.Lawful fun c => idKey c.id := ⟨inferInstanceAs Cluster.codec.Faithful, fun _ => rfl⟩

instance : nodes.Lawful fun n => idKey n.id := ⟨inferInstanceAs Node.codec.Faithful, fun _ => rfl⟩

instance : addresses.Lawful fun a => idKey a.id :=
  ⟨inferInstanceAs Address.codec.Faithful, fun _ => rfl⟩

instance : notifications.Lawful fun n => idKey n.id :=
  ⟨inferInstanceAs Notification.codec.Faithful, fun _ => rfl⟩

instance : dnsTasks.Lawful fun t => dnsTaskKey t.nodeId t.taskType :=
  ⟨inferInstanceAs DnsTask.codec.Faithful, fun _ => rfl⟩

instance : thresholds.Lawful fun t => idKey t.id :=
  ⟨inferInstanceAs Threshold.codec.Faithful, fun _ => rfl⟩

variable {α : Type} (c : Collection α) {keyOf : α → String}

instance [c.Lawful keyOf] : c.codec.Faithful := Lawful.faithful (c := c)

end Collection

namespace Store

variable {α β : Type} {s s' : Store} {c : Collection α} {keyOf : α → String} [c.Lawful keyOf]
  {key : String} {a b : α}

/-- Every row that holds a record stands under its own key. -/
def Keyed (s : Store) : Prop :=
  ∀ name, ∀ row ∈ (s.table name).rows, ∀ key ∈ name.keyOf? row.2, row.1 = key

/-- Every row holds a record and stands under its own key. -/
def WellFormed (s : Store) : Prop :=
  ∀ name, ∀ row ∈ (s.table name).rows, name.keyOf? row.2 = some row.1

theorem WellFormed.keyed (hs : s.WellFormed) : s.Keyed := by
  intro name row hrow key hkey
  rw [hs name row hrow] at hkey
  exact Option.some.inj hkey

theorem wellFormed_empty : ({} : Store).WellFormed := by
  intro name row hrow
  cases name <;> cases hrow

/-! ## Looking up -/

theorem Keyed.key_eq (hs : s.Keyed) (ha : s.record? c key = some a) : key = keyOf a := by
  obtain ⟨value, hrow, hvalue⟩ := record?_eq_some_iff.mp ha
  apply hs c.table (key, value) hrow (keyOf a)
  rw [Collection.Lawful.keyOf?_eq (c := c), hvalue]
  rfl

theorem Keyed.node_id {id : UInt64} {n : Node} (hs : s.Keyed)
    (hn : s.record? .nodes (idKey id) = some n) : n.id = id := by
  have hkey := hs.key_eq hn
  exact (idKey_injective hkey).symm

theorem Keyed.address_id {id : UInt64} {a : Address} (hs : s.Keyed)
    (ha : s.record? .addresses (idKey id) = some a) : a.id = id := by
  have hkey := hs.key_eq ha
  exact (idKey_injective hkey).symm

theorem Keyed.mem_records_iff (hs : s.Keyed) : a ∈ s.records c ↔ s.record? c (keyOf a) = some a := by
  rw [mem_records]
  constructor
  · rintro ⟨key, ha⟩
    exact hs.key_eq ha ▸ ha
  · intro ha
    exact ⟨keyOf a, ha⟩

/-- Records stand in the order of their keys. -/
theorem Keyed.pairwise_records (hs : s.Keyed) :
    (s.records c).Pairwise fun a b => keyOf a < keyOf b := by
  refine List.Pairwise.filterMap _ ?_ (List.Pairwise.and_mem.mp (s.table c.table).sorted)
  rintro x y ⟨hx, hy, hlt⟩ a ha b hb
  have hkey {row : String × String} (hrow : row ∈ (s.table c.table).rows) {a : α}
      (ha : c.codec.read row.2 = some a) : row.1 = keyOf a :=
    hs.key_eq (record?_eq_some_iff.mpr ⟨row.2, hrow, ha⟩)
  rw [← hkey hx ha, ← hkey hy hb]
  exact hlt

/-- A list in the order of the keys that has the same members as the table is what the table holds. -/
theorem Keyed.records_eq (hs : s.Keyed) {l : List α} (hl : l.Pairwise fun a b => keyOf a < keyOf b)
    (hmem : ∀ a, a ∈ l ↔ s.record? c (keyOf a) = some a) : s.records c = l := by
  refine (hs.pairwise_records (c := c)).eq_of_mem_iff hl ?_
  intro a
  rw [hs.mem_records_iff, hmem]

theorem Keyed.nodup_map_records (hs : s.Keyed) : ((s.records c).map keyOf).Nodup :=
  List.pairwise_map.mpr ((hs.pairwise_records (c := c)).imp fun hlt => String.ne_of_lt hlt)

theorem WellFormed.decodes (hs : s.WellFormed) (c : Collection α) [c.Lawful keyOf] :
    s.Decodes c := by
  intro row hrow
  have hrow := hs c.table row hrow
  rw [Collection.Lawful.keyOf?_eq (c := c)] at hrow
  obtain ⟨a, ha, -⟩ := Option.map_eq_some_iff.mp hrow
  exact ⟨a, ha⟩

/-- A key without a record has no row. -/
theorem WellFormed.find?_of_record?_eq_none (hs : s.WellFormed) (c : Collection α) [c.Lawful keyOf]
    (h : s.record? c key = none) :
    s.find? c key = .ok none := by
  rw [find?_of_decodes (hs.decodes c), h]

/-! ## Writing -/

theorem keyOf?_write (a : α) : c.table.keyOf? (c.codec.write a) = some (keyOf a) := by
  rw [Collection.Lawful.keyOf?_eq (c := c), Codec.read_write]
  rfl

/-- Every row after a record was written is the row of that record, or was there before. -/
theorem mem_rows_put {name : TableName} {row : String × String}
    (hrow : row ∈ ((s.put c key a).table name).rows) :
    name = c.table ∧ row = (key, c.codec.write a) ∨ row ∈ (s.table name).rows := by
  by_cases hname : name = c.table
  · subst hname
    rw [table_put, Table.mem_rows_put] at hrow
    rcases hrow with hnew | ⟨-, hold⟩
    · exact .inl ⟨rfl, hnew⟩
    · exact .inr hold
  · rw [table_put_ne a hname] at hrow
    exact .inr hrow

theorem WellFormed.put (hs : s.WellFormed) (c : Collection α) [c.Lawful keyOf] (hkey : key = keyOf a) :
    (s.put c key a).WellFormed := by
  intro name row hrow
  rcases mem_rows_put hrow with ⟨rfl, rfl⟩ | hold
  · -- the new row is read back, and asks for the key that it was given
    rw [keyOf?_write, hkey]
  · exact hs name row hold

/-- Writing behind the last record of a table. -/
theorem WellFormed.records_put_of_lt (hs : s.WellFormed) (h : ∀ b ∈ s.records c, keyOf b < keyOf a) :
    (s.put c (keyOf a) a).records c = s.records c ++ [a] := by
  apply records_put_of_forall_lt
  intro row hrow
  obtain ⟨b, hb⟩ := hs.decodes c row hrow
  have hrecord : s.record? c row.1 = some b := record?_eq_some_iff.mpr ⟨row.2, hrow, hb⟩
  rw [hs.keyed.key_eq hrecord]
  exact h b (mem_records.mpr ⟨row.1, hrecord⟩)

/-- Writing over the only record of a table. -/
theorem WellFormed.records_put_of_singleton (hs : s.WellFormed) (ha : s.records c = [a])
    (hkey : keyOf b = keyOf a) : (s.put c (keyOf b) b).records c = [b] := by
  refine (hs.put c rfl).keyed.records_eq (List.pairwise_singleton _ _) ?_
  intro x
  rw [List.mem_singleton]
  by_cases hx : keyOf x = keyOf b
  · rw [hx, record?_put_self, Option.some_inj]
    exact eq_comm
  · constructor
    · rintro rfl
      exact absurd rfl hx
    · intro hrecord
      rw [record?_put_ne b hx, ← hs.keyed.mem_records_iff, ha, List.mem_singleton] at hrecord
      rw [hrecord, hkey] at hx
      exact absurd rfl hx

end Store

end FleetHealth
