/-!
# Tables

A table holds rows of text under distinct keys, in the byte order of the keys.

* `Table.find?_put_self`, `Table.find?_put_ne` — a row written is found under its key, and no other
  row is touched.
-/

namespace FleetHealth

/-- Rows with the given row in its place, instead of a row of the same key. -/
def insertRow (key value : String) : List (String × String) → List (String × String)
  | [] => [(key, value)]
  | row :: rest =>
    if key < row.1 then (key, value) :: row :: rest
    else if key = row.1 then (key, value) :: rest
    else row :: insertRow key value rest

/-- Every row of the result is the new one or an old one. -/
theorem mem_insertRow {key value : String} {rows : List (String × String)} {row : String × String}
    (h : row ∈ insertRow key value rows) : row = (key, value) ∨ row ∈ rows := by
  induction rows with
  | nil => simpa [insertRow] using h
  | cons head rest ih =>
    unfold insertRow at h
    split at h
    · simpa using h
    · split at h
      · rcases List.mem_cons.mp h with h | h
        · exact .inl h
        · exact .inr (List.mem_cons_of_mem _ h)
      · rcases List.mem_cons.mp h with h | h
        · exact .inr (h ▸ List.mem_cons_self)
        · exact (ih h).imp_right (List.mem_cons_of_mem _)

theorem pairwise_insertRow {key value : String} {rows : List (String × String)}
    (h : rows.Pairwise fun a b => a.1 < b.1) :
    (insertRow key value rows).Pairwise fun a b => a.1 < b.1 := by
  induction rows with
  | nil => simp [insertRow]
  | cons head rest ih =>
    have ⟨hhead, hrest⟩ := List.pairwise_cons.mp h
    unfold insertRow
    split
    · rename_i hlt
      refine List.pairwise_cons.mpr ⟨fun row hrow => ?_, h⟩
      rcases List.mem_cons.mp hrow with hrow | hrow
      · exact hrow ▸ hlt
      · exact String.lt_trans hlt (hhead row hrow)
    · split
      · rename_i heq
        exact List.pairwise_cons.mpr ⟨fun row hrow => heq ▸ hhead row hrow, hrest⟩
      · rename_i hlt hne
        refine List.pairwise_cons.mpr ⟨fun row hrow => ?_, ih hrest⟩
        rcases mem_insertRow hrow with hrow | hrow
        · have hle : head.1 ≤ key := String.not_lt.mp hlt
          rw [hrow]
          exact Classical.byContradiction fun hge =>
            hne (String.le_antisymm (String.not_lt.mp hge) hle)
        · exact hhead row hrow

/-- Rows of text under distinct keys, in the byte order of the keys. -/
structure Table where
  rows : List (String × String)
  sorted : rows.Pairwise fun a b => a.1 < b.1

namespace Table

/-- The table without rows. -/
def empty : Table where
  rows := []
  sorted := .nil

instance : Inhabited Table := ⟨empty⟩

@[ext] theorem ext {a b : Table} (h : a.rows = b.rows) : a = b := by
  cases a
  cases b
  simp_all

/-- The text under a key. -/
def find? (t : Table) (key : String) : Option String :=
  t.rows.lookup key

/-- The table with a text under a key, whether or not there was one before. -/
def put (t : Table) (key value : String) : Table where
  rows := insertRow key value t.rows
  sorted := pairwise_insertRow t.sorted

/-- The greatest key. -/
def lastKey? (t : Table) : Option String :=
  t.rows.getLast?.map (·.1)

theorem lookup_insertRow_self (key value : String) (rows : List (String × String)) :
    (insertRow key value rows).lookup key = some value := by
  induction rows with
  | nil => simp [insertRow]
  | cons head rest ih =>
    unfold insertRow
    split
    · simp
    · split
      · simp
      · rename_i hne
        obtain ⟨k, v⟩ := head
        have hk : (key == k) = false := by simpa using hne
        simp [List.lookup_cons, hk, ih]

theorem lookup_insertRow_ne {key other : String} (value : String) (rows : List (String × String))
    (h : other ≠ key) : (insertRow key value rows).lookup other = rows.lookup other := by
  have ho : (other == key) = false := by simpa using h
  induction rows with
  | nil => simp [insertRow, List.lookup_cons, ho]
  | cons head rest ih =>
    obtain ⟨k, v⟩ := head
    unfold insertRow
    split
    · simp [List.lookup_cons, ho]
    · split
      · rename_i heq
        have hk : (other == k) = false := (show key = k from heq) ▸ ho
        simp [List.lookup_cons, ho, hk]
      · simp [List.lookup_cons, ih]

@[simp] theorem find?_put_self (t : Table) (key value : String) :
    (t.put key value).find? key = some value :=
  lookup_insertRow_self key value t.rows

theorem find?_put_ne (t : Table) {key other : String} (value : String) (h : other ≠ key) :
    (t.put key value).find? other = t.find? other :=
  lookup_insertRow_ne value t.rows h

end Table

end FleetHealth
