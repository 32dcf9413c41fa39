import FleetHealth.Proofs.Store.View
import Mathlib.Data.List.Sort
/-!
# A store, row by row

A table is known by what it holds under each key, and a store by its tables. So the order in which rows
of different keys are written does not matter, and of several rows written under one key only the last
one counts.

* `Store.ext_row` — stores that agree on every row are one.
* `Store.put_put_comm`, `Store.put_put_self` — what two writes come to.
-/

namespace FleetHealth

namespace Table

variable {t t' : Table} {key key' : String}

/-- Tables that hold the same under every key are one. -/
theorem ext_find? (h : ∀ key, t.find? key = t'.find? key) : t = t' := by
  apply ext
  -- keys ascend in both, so the same rows stand in the same order
  refine t.sorted.eq_of_mem_iff t'.sorted ?_
  rintro ⟨key, value⟩
  rw [← find?_eq_some_iff, ← find?_eq_some_iff, h]

theorem find?_put (t : Table) (key value other : String) :
    (t.put key value).find? other = if other = key then some value else t.find? other := by
  split
  · rename_i he
    rw [he, find?_put_self]
  · rename_i hne
    exact find?_put_ne t value hne

theorem put_put_self (t : Table) (key value value' : String) :
    (t.put key value).put key value' = t.put key value' := by
  apply ext_find?
  intro other
  simp only [find?_put]
  split <;> rfl

theorem put_put_comm (t : Table) (value value' : String) (h : key ≠ key') :
    (t.put key value).put key' value' = (t.put key' value').put key value := by
  apply ext_find?
  intro other
  simp only [find?_put]
  split
  · rename_i he
    rw [if_neg fun he' => h (he'.symm.trans he)]
  · rfl

end Table

namespace Store

variable {α β : Type} {s s' : Store} {c : Collection α} {d : Collection β} {key key' : String}

theorem ext_table (h : ∀ name, s.table name = s'.table name) : s = s' := by
  obtain ⟨_, _, _, _, _, _⟩ := s
  obtain ⟨_, _, _, _, _, _⟩ := s'
  obtain rfl := h .clusters
  obtain rfl := h .nodes
  obtain rfl := h .addresses
  obtain rfl := h .notifications
  obtain rfl := h .dnsTasks
  obtain rfl := h .thresholds
  rfl

/-- The text in the row of a table under a key. -/
def row? (s : Store) (name : TableName) (key : String) : Option String :=
  (s.table name).find? key

/-- Stores that agree on every row are one. -/
theorem ext_row (h : ∀ name key, s.row? name key = s'.row? name key) : s = s' :=
  ext_table fun name => Table.ext_find? (h name)

/-- What is in a row after a record was written. -/
theorem row?_put (s : Store) (c : Collection α) (key : String) (a : α) (name : TableName)
    (other : String) :
    (s.put c key a).row? name other
      = if name = c.table ∧ other = key then some (c.codec.write a) else s.row? name other := by
  unfold row?
  by_cases hname : name = c.table
  · subst hname
    rw [table_put, Table.find?_put]
    simp only [true_and]
  · rw [table_put_ne a hname, if_neg fun h => hname h.1]

theorem find?_of_row?_eq (h : s.row? c.table key = s'.row? c.table key) :
    s.find? c key = s'.find? c key := by
  unfold row? at h
  rw [find?, find?, h]

/-- Of two records written under one key, the second one counts. -/
theorem put_put_self (s : Store) (c : Collection α) (key : String) (a b : α) :
    (s.put c key a).put c key b = s.put c key b := by
  apply ext_row
  intro name other
  simp only [row?_put]
  split <;> rfl

/-- Records of different rows can be written in either order. -/
theorem put_put_comm (s : Store) (a : α) (b : β) (h : c.table = d.table → key ≠ key') :
    (s.put c key a).put d key' b = (s.put d key' b).put c key a := by
  apply ext_row
  intro name other
  simp only [row?_put]
  split
  · rename_i hd
    rw [if_neg]
    rintro ⟨hname, hkey⟩
    exact h (hname.symm.trans hd.1) (hkey.symm.trans hd.2)
  · rfl

/-- What a view shows of a store in which every row holds a record. -/
theorem mem_view_iff (hs : s.Decodes c) {f : α → β} {x : Option β} :
    (key, x) ∈ s.view c f ↔ x.isSome ∧ (s.record? c key).map f = x := by
  unfold view
  rw [List.mem_map]
  constructor
  · rintro ⟨row, hrow, he⟩
    obtain ⟨a, ha⟩ := hs row hrow
    cases he
    have hrecord : s.record? c row.1 = some a := record?_eq_some_iff.mpr ⟨row.2, hrow, ha⟩
    rw [hrecord, ha]
    exact ⟨rfl, rfl⟩
  · rintro ⟨hsome, rfl⟩
    obtain ⟨b, hb⟩ := Option.isSome_iff_exists.mp hsome
    obtain ⟨a, ha, -⟩ := Option.map_eq_some_iff.mp hb
    obtain ⟨value, hrow, hread⟩ := record?_eq_some_iff.mp ha
    refine ⟨(key, value), hrow, ?_⟩
    rw [ha, hread]

/-- Stores that agree on an aspect of every record show the same of it. -/
theorem view_congr_of_record? (hs : s.Decodes c) (hs' : s'.Decodes c) {f : α → β}
    (h : ∀ key, (s.record? c key).map f = (s'.record? c key).map f) : s.view c f = s'.view c f := by
  have hsorted (s : Store) : (s.view c f).Pairwise fun x y => x.1 < y.1 :=
    List.pairwise_map.mpr (s.table c.table).sorted
  -- keys ascend in both, so the same entries stand in the same order
  refine (hsorted s).eq_of_mem_iff (hsorted s') ?_
  rintro ⟨key, x⟩
  rw [mem_view_iff hs, mem_view_iff hs', h]

end Store

end FleetHealth
