import FleetHealth.Proofs.Fleet.Codec
import FleetHealth.Proofs.Store.Keys
/-!
# What a store shows

A row that holds no record is still a row, so what a store shows of a table is a list of keys with what
may be there: `Store.view` keeps, for every row, one aspect of its record. An operation that leaves a
view as it was is invisible to whoever looks at that aspect only.

* `Store.scan_eq_ok_iff`, `Store.find?_eq_ok_some_iff`, `Store.update_eq_ok_iff` — the operations of a
  store in terms of its records.
* `Store.view_put` — writing a record over one of the same aspect does not show.
-/

namespace FleetHealth

/-! ## Rows -/

section Rows

variable {γ : Type} {key : String} {rows : List (String × String)}

/-- A row in place of one that looks the same leaves the look of all rows as it was. -/
theorem map_insertRow {old new : String} (hrows : rows.Pairwise fun a b => a.1 < b.1)
    (hold : rows.lookup key = some old) (g : String × String → γ) (hg : g (key, new) = g (key, old)) :
    (insertRow key new rows).map g = rows.map g := by
  induction rows with
  | nil => cases hold
  | cons head rest ih =>
    obtain ⟨k, v⟩ := head
    have ⟨hhead, hrest⟩ := List.pairwise_cons.mp hrows
    unfold insertRow
    split
    · -- a key before the first row has no row
      rename_i hlt
      have hne : (key == k) = false := beq_false_of_ne (String.ne_of_lt hlt)
      rw [List.lookup_cons, hne, List.lookup_eq_some_iff] at hold
      obtain ⟨before, after, rfl, -⟩ := hold
      have hgt : k < key := hhead (key, old) (by simp)
      exact absurd (String.lt_trans hlt hgt) (String.lt_irrefl key)
    · split
      · rename_i heq
        obtain rfl : key = k := heq
        obtain rfl : v = old := by simpa [List.lookup_cons] using hold
        rw [List.map_cons, List.map_cons, hg]
      · rename_i hne
        have hne : (key == k) = false := beq_false_of_ne hne
        rw [List.lookup_cons, hne] at hold
        rw [List.map_cons, List.map_cons, ih hrest hold]

theorem insertRow_of_forall_lt {value : String} (h : ∀ row ∈ rows, row.1 < key) :
    insertRow key value rows = rows ++ [(key, value)] := by
  induction rows with
  | nil => rfl
  | cons head rest ih =>
    have hlt := h head List.mem_cons_self
    have hnlt : ¬key < head.1 := fun hgt => String.lt_irrefl key (String.lt_trans hgt hlt)
    have hne : key ≠ head.1 := fun he => String.lt_irrefl key (he ▸ hlt)
    rw [insertRow, if_neg hnlt, if_neg hne, ih fun row hrow => h row (List.mem_cons_of_mem _ hrow)]
    rfl

end Rows

namespace Table

theorem find?_eq_some_iff {t : Table} {key value : String} :
    t.find? key = some value ↔ (key, value) ∈ t.rows := by
  rw [find?, List.lookup_eq_some_iff]
  constructor
  · rintro ⟨before, after, hrows, -⟩
    rw [hrows]
    simp
  · intro hmem
    obtain ⟨before, after, hrows⟩ := List.append_of_mem hmem
    -- keys ascend, so no row before this one has its key
    refine ⟨before, after, hrows, ?_⟩
    intro row hrow
    have hsorted := t.sorted
    rw [hrows] at hsorted
    have hlt := (List.pairwise_append.mp hsorted).2.2 row hrow (key, value) List.mem_cons_self
    exact bne_iff_ne.mpr (String.ne_of_lt hlt).symm

theorem mem_rows_put {t : Table} {key value : String} {row : String × String} :
    row ∈ (t.put key value).rows ↔ row = (key, value) ∨ row.1 ≠ key ∧ row ∈ t.rows := by
  obtain ⟨k, v⟩ := row
  rw [← find?_eq_some_iff, ← find?_eq_some_iff]
  by_cases hk : k = key
  · subst hk
    simp [eq_comm]
  · rw [find?_put_ne t value hk]
    simp [hk]

end Table

/-! ## Records -/

namespace Store

variable {α β γ : Type} {s s' : Store} {c : Collection α} {key : String} {a b : α}

/-- The record under a key, if there is a row and it holds one. -/
def record? (s : Store) (c : Collection α) (key : String) : Option α :=
  ((s.table c.table).find? key).bind c.codec.read

/-- The records of the rows that hold one, in the order of the keys. -/
def records (s : Store) (c : Collection α) : List α :=
  (s.table c.table).rows.filterMap fun row => c.codec.read row.2

/-- Whether every row of a collection holds a record. -/
def Decodes (s : Store) (c : Collection α) : Prop :=
  ∀ row ∈ (s.table c.table).rows, ∃ a, c.codec.read row.2 = some a

/-- One aspect of the records of a collection, by key. A row without a record shows as nothing. -/
def view (s : Store) (c : Collection α) (f : α → β) : List (String × Option β) :=
  (s.table c.table).rows.map fun row => (row.1, (c.codec.read row.2).map f)

theorem record?_eq_some_iff :
    s.record? c key = some a
      ↔ ∃ value, (key, value) ∈ (s.table c.table).rows ∧ c.codec.read value = some a := by
  rw [record?, Option.bind_eq_some_iff]
  simp only [Table.find?_eq_some_iff]

theorem mem_records : a ∈ s.records c ↔ ∃ key, s.record? c key = some a := by
  simp only [records, List.mem_filterMap, record?_eq_some_iff]
  exact ⟨fun ⟨row, hrow, ha⟩ => ⟨row.1, row.2, hrow, ha⟩,
    fun ⟨key, value, hrow, ha⟩ => ⟨(key, value), hrow, ha⟩⟩

/-! ## Reading -/

theorem decodeRow_of_read {value : String} (h : c.codec.read value = some a) :
    decodeRow c value = .ok a := by
  unfold decodeRow
  rw [h]

theorem decodeRow_of_read_eq_none {value : String} (h : c.codec.read value = none) :
    decodeRow c value = .error .undecodable := by
  unfold decodeRow
  rw [h]

theorem find?_eq_ok_some_iff : s.find? c key = .ok (some a) ↔ s.record? c key = some a := by
  rw [find?, record?]
  cases (s.table c.table).find? key with
  | none => simp
  | some value =>
    cases hread : c.codec.read value with
    | none => simp [decodeRow_of_read_eq_none hread, Except.map, hread]
    | some a => simp [decodeRow_of_read hread, Except.map, hread]

theorem find?_of_record? (h : s.record? c key = some a) : s.find? c key = .ok (some a) :=
  find?_eq_ok_some_iff.mpr h

/-- A key without a record has no row, or one that cannot be read. -/
theorem find?_of_record?_eq_none (h : s.record? c key = none) :
    s.find? c key = .ok none ∨ s.find? c key = .error .undecodable := by
  unfold record? at h
  unfold find?
  cases hrow : (s.table c.table).find? key with
  | none => exact .inl rfl
  | some value =>
    rw [hrow, Option.bind_some] at h
    exact .inr (congrArg (Except.map some) (decodeRow_of_read_eq_none h))

/-- As long as every row holds a record, looking for one never fails. -/
theorem find?_of_decodes (h : s.Decodes c) (key : String) : s.find? c key = .ok (s.record? c key) := by
  unfold find? record?
  cases hrow : (s.table c.table).find? key with
  | none => rfl
  | some value =>
    obtain ⟨a, ha⟩ := h _ (Table.find?_eq_some_iff.mp hrow)
    show (decodeRow c value).map some = .ok (c.codec.read value)
    rw [decodeRow_of_read ha, ha]
    rfl

theorem mapM_decodeRow (rows : List (String × String)) :
    rows.mapM (fun row => decodeRow c row.2)
      = if rows.all fun row => (c.codec.read row.2).isSome then
          .ok (rows.filterMap fun row => c.codec.read row.2)
        else .error .undecodable := by
  induction rows with
  | nil => rfl
  | cons row rest ih =>
    rw [List.mapM_cons, ih, List.all_cons]
    cases hread : c.codec.read row.2 with
    | none =>
      rw [decodeRow_of_read_eq_none hread]
      rfl
    | some a =>
      rw [decodeRow_of_read hread, Option.isSome_some, Bool.true_and]
      split
      · rw [List.filterMap_cons, hread]
        rfl
      · rfl

/-- A scan succeeds if every row can be read, whether or not it is asked for. -/
theorem scan_eq_ok_iff {keep : α → Bool} {l : List α} :
    s.scan c keep = .ok l ↔ s.Decodes c ∧ l = (s.records c).filter keep := by
  have hall : (s.table c.table).rows.all (fun row => (c.codec.read row.2).isSome) = true
      ↔ s.Decodes c := by
    simp only [List.all_eq_true, Decodes, Option.isSome_iff_exists]
  rw [scan, mapM_decodeRow, ← hall, ← records]
  split
  · rename_i h
    simp [bind, Except.bind, pure, Except.pure, h, eq_comm]
  · rename_i h
    simp [bind, Except.bind, h]

theorem scan_of_decodes (h : s.Decodes c) (keep : α → Bool) :
    s.scan c keep = .ok ((s.records c).filter keep) :=
  scan_eq_ok_iff.mpr ⟨h, rfl⟩

/-- A scan meets a row that holds no record, wherever it stands. -/
theorem scan_of_unreadable {row : String × String} (hrow : row ∈ (s.table c.table).rows)
    (hread : c.codec.read row.2 = none) (keep : α → Bool) : s.scan c keep = .error .undecodable := by
  have hall : ¬(s.table c.table).rows.all (fun row => (c.codec.read row.2).isSome) = true := by
    intro hall
    have hsome := List.all_eq_true.mp hall row hrow
    rw [hread] at hsome
    cases hsome
  rw [scan, mapM_decodeRow, if_neg hall]
  rfl

theorem find?_of_unreadable {row : String × String} (hrow : row ∈ (s.table c.table).rows)
    (hread : c.codec.read row.2 = none) : s.find? c row.1 = .error .undecodable := by
  have hfound : (s.table c.table).find? row.1 = some row.2 := Table.find?_eq_some_iff.mpr hrow
  unfold find?
  rw [hfound]
  show (decodeRow c row.2).map some = _
  rw [decodeRow_of_read_eq_none hread]
  rfl

/-! ## Views -/

theorem lookup_map_snd {rows : List (String × String)} (g : String → γ) :
    (rows.map fun row => (row.1, g row.2)).lookup key = (rows.lookup key).map g := by
  induction rows with
  | nil => rfl
  | cons row rest ih =>
    rw [List.map_cons, List.lookup_cons, List.lookup_cons, ih]
    cases key == row.1 <;> rfl

theorem map_record? (f : α → β) : (s.record? c key).map f = ((s.view c f).lookup key).join := by
  rw [view, lookup_map_snd fun value => (c.codec.read value).map f, record?, Table.find?]
  cases (s.table c.table).rows.lookup key <;> rfl

theorem map_records (f : α → β) : (s.records c).map f = (s.view c f).filterMap (·.2) := by
  rw [records, view, List.filterMap_map, List.map_filterMap]
  rfl

/-- Stores with one table agree on its records. -/
theorem records_congr (h : s'.table c.table = s.table c.table) : s'.records c = s.records c := by
  rw [records, records, h]

theorem record?_congr (h : s'.table c.table = s.table c.table) (key : String) :
    s'.record? c key = s.record? c key := by
  rw [record?, record?, h]

/-- Stores of one view agree on the aspect of every record. -/
theorem map_record?_congr {f : α → β} (h : s.view c f = s'.view c f) (key : String) :
    (s.record? c key).map f = (s'.record? c key).map f := by
  rw [map_record?, map_record?, h]

theorem map_records_congr {f : α → β} (h : s.view c f = s'.view c f) :
    (s.records c).map f = (s'.records c).map f := by
  rw [map_records, map_records, h]

/-- A view of less follows from a view of more. -/
theorem view_congr {f : α → β} (h : s.view c f = s'.view c f) (g : β → γ) :
    s.view c (g ∘ f) = s'.view c (g ∘ f) := by
  have hview (s : Store) :
      s.view c (g ∘ f) = (s.view c f).map fun entry => (entry.1, entry.2.map g) := by
    simp [view]
  rw [hview, hview, h]

/-! ## Writing -/

theorem table_put_ne (a : α) {name : TableName} (h : name ≠ c.table) :
    (s.put c key a).table name = s.table name :=
  table_withTable_ne s _ h

theorem table_put (a : α) :
    (s.put c key a).table c.table = (s.table c.table).put key (c.codec.write a) :=
  table_withTable s c.table _

theorem record?_put_self [c.codec.Faithful] (a : α) : (s.put c key a).record? c key = some a := by
  rw [record?, table_put, Table.find?_put_self, Option.bind_some, Codec.read_write]

theorem record?_put_ne (a : α) {other : String} (h : other ≠ key) :
    (s.put c key a).record? c other = s.record? c other := by
  rw [record?, table_put, Table.find?_put_ne _ _ h, record?]

theorem record?_put_of_table_ne (a : α) {d : Collection β} (h : d.table ≠ c.table) (other : String) :
    (s.put c key a).record? d other = s.record? d other := by
  rw [record?, table_put_ne a h, record?]

theorem records_put_of_table_ne (a : α) {d : Collection β} (h : d.table ≠ c.table) :
    (s.put c key a).records d = s.records d := by
  rw [records, table_put_ne a h, records]

/-- A record in place of one that shows the same does not show. -/
theorem view_put [c.codec.Faithful] {f : α → β} (ha : s.record? c key = some a) (hf : f b = f a) :
    (s.put c key b).view c f = s.view c f := by
  obtain ⟨value, hrow, hvalue⟩ := record?_eq_some_iff.mp ha
  rw [view, table_put]
  refine map_insertRow (s.table c.table).sorted (Table.find?_eq_some_iff.mpr hrow) _ ?_
  rw [Codec.read_write, hvalue, Option.map_some, Option.map_some, hf]

theorem records_put_of_forall_lt [c.codec.Faithful]
    (h : ∀ row ∈ (s.table c.table).rows, row.1 < key) (a : α) :
    (s.put c key a).records c = s.records c ++ [a] := by
  have hrows : ((s.table c.table).put key (c.codec.write a)).rows = _ := insertRow_of_forall_lt h
  rw [records, table_put, hrows, List.filterMap_append, ← records]
  simp [Codec.read_write]

/-- A change in place needs a record to change, and writes what becomes of it. -/
theorem update_eq_ok_iff {change : α → α × β} {x : β} :
    s.update c key change = .ok (b, x, s')
      ↔ ∃ a, s.record? c key = some a ∧ change a = (b, x) ∧ s' = s.put c key b := by
  unfold update
  cases ha : s.record? c key with
  | none =>
    rcases find?_of_record?_eq_none ha with hfind | hfind <;> rw [hfind] <;> simp [bind, Except.bind]
  | some a =>
    rw [find?_of_record? ha]
    simp only [bind, Except.bind, pure, Except.pure, Except.ok.injEq, Prod.mk.injEq,
      Option.some.injEq, exists_eq_left']
    constructor
    · rintro ⟨rfl, rfl, rfl⟩
      exact ⟨rfl, rfl⟩
    · rintro ⟨hchange, rfl⟩
      rw [hchange]
      exact ⟨rfl, rfl, rfl⟩

theorem update_of_record? {change : α → α × β} (ha : s.record? c key = some a) :
    s.update c key change = .ok ((change a).1, (change a).2, s.put c key (change a).1) :=
  update_eq_ok_iff.mpr ⟨a, ha, rfl, rfl⟩

theorem update_of_record?_eq_none {change : α → α × β} (h : s.record? c key = none) :
    ∃ e, s.update c key change = .error e := by
  unfold update
  rcases find?_of_record?_eq_none h with hfind | hfind <;> rw [hfind] <;> exact ⟨_, rfl⟩

end Store

end FleetHealth
