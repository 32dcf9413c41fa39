import FleetHealth.Toml.Tree
/-!
# The table that plain statements describe

A document without dots in its names gives the document itself some values, and then the tables of one
array some values each.

* `ofStatements?_assigns`, `ofStatements?_records` — the table of such a document.
-/

namespace FleetHealth.Toml

/-! ## Values of one table -/

/-- The statements that give names values. -/
def assigns (values : List (String × Value)) : List Statement :=
  values.map fun e => .assign [e.1] e.2

/-- The entries of a table that has nothing but values. -/
def plain (values : List (String × Value)) : Entries :=
  values.map fun e => (e.1, .value e.2)

theorem plain_concat (values : List (String × Value)) (e : String × Value) :
    plain (values ++ [e]) = plain values ++ [(e.1, .value e.2)] :=
  List.map_append

theorem lookup_plain_eq_none {values : List (String × Value)} {name : String}
    (h : name ∉ values.map (·.1)) : (plain values).lookup name = none := by
  rw [List.lookup_eq_none_iff]
  intro e he
  obtain ⟨v, hv, rfl⟩ := List.mem_map.mp he
  rw [bne_iff_ne]
  rintro rfl
  exact h (List.mem_map.mpr ⟨v, hv, rfl⟩)

theorem assign_plain {values : List (String × Value)} {e : String × Value}
    (h : e.1 ∉ values.map (·.1)) : assign [e.1] e.2 (plain values) = some (plain (values ++ [e])) := by
  simp [assign, walk, lookup_plain_eq_none h, plain_concat]

/-- Values of new names are added one by one, whichever table of the draft they go to. -/
theorem foldlM_assigns {draft : List (String × Value) → Draft}
    (hadd : ∀ {values : List (String × Value)} {e : String × Value}, e.1 ∉ values.map (·.1) →
      (draft values).add (.assign [e.1] e.2) = some (draft (values ++ [e])))
    (values before : List (String × Value)) (hnames : ((before ++ values).map (·.1)).Nodup) :
    (assigns values).foldlM Draft.add (draft before) = some (draft (before ++ values)) := by
  induction values generalizing before with
  | nil => simp [assigns]
  | cons e values ih =>
    have hnew : e.1 ∉ before.map (·.1) := by
      rw [List.map_append, List.nodup_append] at hnames
      exact fun hmem => hnames.2.2 e.1 hmem e.1 List.mem_cons_self rfl
    rw [List.append_cons] at hnames ⊢
    rw [assigns, List.map_cons, List.foldlM_cons, hadd hnew]
    exact ih (before ++ [e]) hnames

theorem add_assign_root {values : List (String × Value)} {e : String × Value}
    (h : e.1 ∉ values.map (·.1)) :
    (Draft.mk [] (plain values)).add (.assign [e.1] e.2) = some ⟨[], plain (values ++ [e])⟩ := by
  rw [Draft.add, walk, assign_plain h]
  rfl

/-! ## The tables of an array -/

section

variable {values : List (String × Value)} {name : String}

/-- The entries of a document with values and, unless there are none, the tables of one array. -/
def withTables (values : List (String × Value)) (name : String) (tables : List Entries) : Entries :=
  match tables with
  | [] => plain values
  | _ :: _ => plain values ++ [(name, .tables tables)]

theorem withTables_concat (tables : List Entries) (last : Entries) :
    withTables values name (tables ++ [last]) = plain values ++ [(name, .tables (tables ++ [last]))] := by
  cases tables <;> rfl

theorem lookup_withTables (hname : name ∉ values.map (·.1)) (tables : List Entries) (last : Entries) :
    (withTables values name (tables ++ [last])).lookup name = some (.tables (tables ++ [last])) := by
  rw [withTables_concat, List.lookup_append, lookup_plain_eq_none hname]
  simp

theorem replaceEntry_withTables (hname : name ∉ values.map (·.1)) (tables tables' : List Entries)
    (last last' : Entries) :
    replaceEntry (withTables values name (tables ++ [last])) name (.tables (tables' ++ [last']))
      = withTables values name (tables' ++ [last']) := by
  have hvalues : (plain values).map (fun e =>
      if e.1 == name then (name, Item.tables (tables' ++ [last'])) else e) = plain values := by
    refine (List.map_congr_left fun e he => ?_).trans (List.map_id _)
    obtain ⟨v, hv, rfl⟩ := List.mem_map.mp he
    refine if_neg fun heq => hname (List.mem_map.mpr ⟨v, hv, ?_⟩)
    exact beq_iff_eq.mp heq
  rw [withTables_concat, withTables_concat, replaceEntry, List.map_append, hvalues]
  simp

/-- A header opens one more table. -/
theorem add_arrayHeader (hname : name ∉ values.map (·.1)) (current : List String)
    (tables : List Entries) :
    (Draft.mk current (withTables values name tables)).add (.arrayHeader [name])
      = some ⟨[name], withTables values name (tables ++ [[]])⟩ := by
  rcases List.eq_nil_or_concat tables with rfl | ⟨before, last, rfl⟩
  · simp [Draft.add, openElement, walk, withTables, lookup_plain_eq_none hname]
  · have hadded := replaceEntry_withTables hname before (before ++ [last]) last []
    simp [Draft.add, openElement, walk, lookup_withTables hname]
    simpa using hadded

/-- What follows goes to the last table. -/
theorem add_assign_last (hname : name ∉ values.map (·.1)) (tables : List Entries)
    {inner : List (String × Value)} {e : String × Value} (h : e.1 ∉ inner.map (·.1)) :
    (Draft.mk [name] (withTables values name (tables ++ [plain inner]))).add (.assign [e.1] e.2)
      = some ⟨[name], withTables values name (tables ++ [plain (inner ++ [e])])⟩ := by
  have hadded := replaceEntry_withTables hname tables tables (plain inner) (plain (inner ++ [e]))
  simp [Draft.add, walk, lookup_withTables hname, assign_plain h, hadded]

/-- The statements for one table of an array. -/
def element (name : String) (inner : List (String × Value)) : List Statement :=
  .arrayHeader [name] :: assigns inner

theorem foldlM_elements (hname : name ∉ values.map (·.1)) {inners : List (List (String × Value))}
    (hinners : ∀ inner ∈ inners, (inner.map (·.1)).Nodup) (current : List String)
    (tables : List Entries) :
    ∃ path, (inners.flatMap (element name)).foldlM Draft.add ⟨current, withTables values name tables⟩
      = some ⟨path, withTables values name (tables ++ inners.map plain)⟩ := by
  induction inners generalizing current tables with
  | nil => exact ⟨current, by simp⟩
  | cons inner inners ih =>
    obtain ⟨hinner, hrest⟩ := List.forall_mem_cons.mp hinners
    have hassigns := foldlM_assigns (add_assign_last hname tables) inner [] (by simpa using hinner)
    obtain ⟨path, hfold⟩ := ih hrest [name] (tables ++ [plain inner])
    refine ⟨path, ?_⟩
    -- the header opens an empty table, which the assignments after it fill
    rw [List.flatMap_cons, List.foldlM_append, element, List.foldlM_cons, add_arrayHeader hname]
    show ((assigns inner).foldlM Draft.add
      ⟨[name], withTables values name (tables ++ [plain []])⟩).bind _ = _
    rw [hassigns]
    simpa using hfold

end

/-! ## The finished table -/

theorem entriesToValues_plain (values : List (String × Value)) :
    entriesToValues (plain values) = values := by
  induction values with
  | nil => rfl
  | cons e values ih =>
    show (e.1, Item.toValue (.value e.2)) :: entriesToValues (plain values) = _
    rw [ih, Item.toValue]

theorem elementsToValues_plain (inners : List (List (String × Value))) :
    elementsToValues (inners.map plain) = inners.map .table := by
  induction inners with
  | nil => rfl
  | cons inner inners ih =>
    show Value.table (entriesToValues (plain inner)) :: elementsToValues (inners.map plain) = _
    rw [ih, entriesToValues_plain, List.map_cons]

theorem entriesToValues_append (before after : Entries) :
    entriesToValues (before ++ after) = entriesToValues before ++ entriesToValues after := by
  induction before with
  | nil => rfl
  | cons e before ih => simp only [List.cons_append, entriesToValues, ih]

/-- **Values alone make a table of values.** -/
theorem ofStatements?_assigns {values : List (String × Value)} (hvalues : (values.map (·.1)).Nodup) :
    ofStatements? (assigns values) = some (.table values) := by
  have hroot := foldlM_assigns add_assign_root values [] (by simpa using hvalues)
  rw [ofStatements?]
  show ((assigns values).foldlM Draft.add ⟨[], plain []⟩).bind _ = _
  rw [hroot, Option.bind_some, List.nil_append, entriesToValues_plain]

/-- **Values of the document are followed by an array of tables.** -/
theorem ofStatements?_records {values : List (String × Value)} {name : String}
    (hvalues : (values.map (·.1)).Nodup) (hname : name ∉ values.map (·.1))
    {inners : List (List (String × Value))} (hne : inners ≠ [])
    (hinners : ∀ inner ∈ inners, (inner.map (·.1)).Nodup) :
    ofStatements? (assigns values ++ inners.flatMap (element name))
      = some (.table (values ++ [(name, .arr (inners.map .table))])) := by
  have hroot := foldlM_assigns add_assign_root values [] (by simpa using hvalues)
  obtain ⟨path, hfold⟩ := foldlM_elements hname hinners [] []
  have hfold' : (inners.flatMap (element name)).foldlM Draft.add ⟨[], plain ([] ++ values)⟩
      = some ⟨path, withTables values name (inners.map plain)⟩ := hfold
  rw [ofStatements?, List.foldlM_append]
  show (((assigns values).foldlM Draft.add ⟨[], plain []⟩).bind _).bind _ = _
  rw [hroot, Option.bind_some, hfold', Option.bind_some]
  cases inners with
  | nil => exact absurd rfl hne
  | cons inner inners =>
    show some (Value.table (entriesToValues (plain values ++ [(name, .tables _)]))) = _
    rw [entriesToValues_append, entriesToValues_plain]
    simp only [entriesToValues, Item.toValue]
    rw [elementsToValues_plain]

end FleetHealth.Toml
