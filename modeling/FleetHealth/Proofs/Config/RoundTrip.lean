import FleetHealth.Config.Basic
import FleetHealth.Proofs.Fleet.Codec
import FleetHealth.Proofs.Toml.Drafts
import FleetHealth.Proofs.Toml.Lines
/-!
# Settings are read back

Settings are written line by line. Their numbers may be too great for the format, and then nothing is
written; what is written is read back as the same settings.

* `Config.parse_render` — which settings are written, and that they are read back.
-/

namespace FleetHealth

open Toml

/-! ## What is written -/

/-- The values of a monitored cluster. -/
def MonitorSettings.values (m : MonitorSettings) : List (String × Value) :=
  [("cluster_id", .int m.clusterId.toNat), ("interval_secs", .int m.intervalSecs.toNat)]

namespace Config

/-- The values before the monitored clusters. -/
def values (c : Config) : List (String × Value) :=
  [("data_dir", .str c.dataDir), ("worker_pool_size", .int c.workerPoolSize.toNat),
    ("tracking_mode", .str c.trackingMode.name)]

/-- The table that settings are written as. -/
def table (c : Config) : Value :=
  .table (c.values ++ [("monitors", .arr (c.monitors.map fun m => .table m.values))])

/-- The statements for a monitored cluster with the lines for each. -/
def monitorParts (m : MonitorSettings) : List (Statement × List Char) :=
  [(.arrayHeader ["monitors"], '\n' :: "[[monitors]]\n".toList),
    (.assign ["cluster_id"] (.int m.clusterId.toNat),
      line "cluster_id" (Text.digits m.clusterId.toNat)),
    (.assign ["interval_secs"] (.int m.intervalSecs.toNat),
      line "interval_secs" (Text.digits m.intervalSecs.toNat))]

/-- The statements for the settings with the lines for each. -/
def parts (c : Config) : List (Statement × List Char) :=
  [(.assign ["data_dir"] (.str c.dataDir), line "data_dir" (writeText c.dataDir.toList)),
    (.assign ["worker_pool_size"] (.int c.workerPoolSize.toNat),
      line "worker_pool_size" (Text.digits c.workerPoolSize.toNat)),
    (.assign ["tracking_mode"] (.str c.trackingMode.name),
      line "tracking_mode" (writeText c.trackingMode.name.toList))]
    ++ if c.monitors.isEmpty then [(.assign ["monitors"] (.arr []), line "monitors" ['[', ']'])]
      else c.monitors.flatMap monitorParts

variable {c : Config}

theorem flatMap_parts (c : Config) : c.parts.flatMap (·.2) = c.lines := by
  rw [parts, lines, List.flatMap_append]
  cases c.monitors with
  | nil => simp
  | cons m ms =>
    have hlines : (fun m => (monitorParts m).flatMap (·.2)) = monitorLines := by
      funext m
      simp [monitorParts, monitorLines]
    rw [← hlines]
    simp [List.flatMap_assoc]

/-- Whether every number is small enough to be written. -/
def Writable (c : Config) : Prop :=
  c.workerPoolSize ≤ greatestInteger
    ∧ ∀ m ∈ c.monitors, m.clusterId ≤ greatestInteger ∧ m.intervalSecs ≤ greatestInteger

/-! ## Each line -/

theorem writes_line (name : String) (hname : IsBareName name.toList) {value : List Char} {v : Value}
    (hvalue : Denotes value v) : Writes (.assign [name] v) (line name value) := by
  have hwrites := writes_assign hname hvalue
  rw [String.ofList_toList] at hwrites
  have hline : line name value = name.toList ++ ' ' :: '=' :: ' ' :: (value ++ ['\n']) := by
    simp [line]
  rw [hline]
  exact hwrites

theorem denotes_number {n : UInt64} (hn : n ≤ greatestInteger) :
    Denotes (Text.digits n.toNat) (.int n.toNat) :=
  denotes_digits (UInt64.le_iff_toNat_le.mp hn)

theorem writes_monitorParts {m : MonitorSettings} (hid : m.clusterId ≤ greatestInteger)
    (hsecs : m.intervalSecs ≤ greatestInteger) : ∀ p ∈ monitorParts m, Writes p.1 p.2 := by
  have hheader : Writes (.arrayHeader ["monitors"]) ('\n' :: "[[monitors]]\n".toList) :=
    writes_arrayHeader (by decide : IsBareName "monitors".toList)
  have hidLine := writes_line "cluster_id" (by decide) (denotes_number hid)
  have hsecsLine := writes_line "interval_secs" (by decide) (denotes_number hsecs)
  intro p hp
  simp only [monitorParts, List.mem_cons, List.not_mem_nil, or_false] at hp
  rcases hp with rfl | rfl | rfl
  · exact hheader
  · exact hidLine
  · exact hsecsLine

theorem writes_parts (h : c.Writable) : ∀ p ∈ c.parts, Writes p.1 p.2 := by
  have hdir := writes_line "data_dir" (by decide) (denotes_text c.dataDir)
  have hpool := writes_line "worker_pool_size" (by decide) (denotes_number h.1)
  have hmode := writes_line "tracking_mode" (by decide)
    (denotes_text c.trackingMode.name)
  have hnone := writes_line "monitors" (by decide) denotes_noItems
  intro p hp
  rcases List.mem_append.mp hp with hp | hp
  · simp only [List.mem_cons, List.not_mem_nil, or_false] at hp
    rcases hp with rfl | rfl | rfl
    · exact hdir
    · exact hpool
    · exact hmode
  · split at hp
    · obtain rfl := List.mem_singleton.mp hp
      exact hnone
    · obtain ⟨m, hm, hp⟩ := List.mem_flatMap.mp hp
      exact writes_monitorParts (h.2 m hm).1 (h.2 m hm).2 p hp

/-! ## The whole text -/

/-- The statements describe the table, whether there are monitored clusters or not. -/
theorem ofStatements?_parts (c : Config) : ofStatements? (c.parts.map (·.1)) = some c.table := by
  have hnames : c.values.map (·.1) = ["data_dir", "worker_pool_size", "tracking_mode"] := rfl
  have hinners : ∀ inner ∈ c.monitors.map MonitorSettings.values, (inner.map (·.1)).Nodup := by
    intro inner hinner
    obtain ⟨m, -, rfl⟩ := List.mem_map.mp hinner
    show ["cluster_id", "interval_secs"].Nodup
    decide
  -- an empty list of monitors is written as a value, any other as tables
  by_cases hnone : c.monitors = []
  · have hstatements : c.parts.map (·.1) = assigns (c.values ++ [("monitors", .arr [])]) := by
      simp [parts, hnone, assigns, values]
    rw [hstatements, ofStatements?_assigns]
    · simp [table, hnone]
    · rw [List.map_append, hnames]
      decide
  · have hstatements : c.parts.map (·.1)
        = assigns c.values ++ (c.monitors.map MonitorSettings.values).flatMap (element "monitors") := by
      simp [parts, hnone, assigns, values, List.map_flatMap, List.flatMap_map, monitorParts, element,
        MonitorSettings.values]
    rw [hstatements, ofStatements?_records _ _ (by simpa using hnone) hinners]
    · simp [table]
    · rw [hnames]
      decide
    · rw [hnames]
      decide

theorem itemsToJson_eq_map (items : List Value) : itemsToJson items = items.map Value.toJson := by
  induction items with
  | nil => rfl
  | cons v items ih => rw [itemsToJson, ih, List.map_cons]

theorem toJson_table (c : Config) : c.table.toJson = (codec .toml).encode c := by
  have hmonitors : itemsToJson (c.monitors.map fun m => .table m.values)
      = c.monitors.map (MonitorSettings.codec .toml).encode := by
    rw [itemsToJson_eq_map, List.map_map]
    rfl
  rw [table, values, Value.toJson]
  simp only [List.cons_append, List.nil_append, entriesToJson, Value.toJson, hmonitors]
  rfl

instance (bare : Json → Bool) : (Codec.choice bare TrackingMode.name TrackingMode.all).Faithful :=
  Codec.faithful_choice bare (by rintro (_ | _) <;> decide)

instance (dialect : Dialect) : (MonitorSettings.codec dialect).Faithful :=
  Codec.faithful_recordWith _ (by decide) fun _ => rfl

instance (dialect : Dialect) : (codec dialect).Faithful := by
  refine Codec.faithful_recordWith _ ?_ fun _ => rfl
  show ["data_dir", "worker_pool_size", "tracking_mode", "monitors"].Nodup
  decide

theorem parse?_lines (h : c.Writable) : parse? (String.ofList c.lines) = some c := by
  -- there is no byte order mark to skip
  have hmark : ∀ d ∈ (c.parts.flatMap (·.2)).head?, d ≠ '\uFEFF' := by
    rintro d ⟨⟩
    decide
  have hstatements := statements?_chunks (writes_parts h) hmark
  rw [flatMap_parts] at hstatements
  rw [parse?, parse, hstatements, Option.bind_some, ofStatements?_parts, Option.bind_some, toJson_table]
  exact Codec.Faithful.decode_encode c

theorem render?_eq_some_iff {text : String} :
    c.render? = some text ↔ c.Writable ∧ String.ofList c.lines = text := by
  simp only [render?, Option.ite_none_right_eq_some, Bool.and_eq_true, decide_eq_true_eq,
    List.all_eq_true, Option.some.injEq, Writable]

theorem render?_eq_none_iff : c.render? = none ↔ greatestInteger < c.workerPoolSize
    ∨ ∃ m ∈ c.monitors, greatestInteger < m.clusterId ∨ greatestInteger < m.intervalSecs := by
  have hnot : c.render? = none ↔ ¬c.Writable := by
    simp [Option.eq_none_iff_forall_ne_some, render?_eq_some_iff]
  rw [hnot, Writable]
  simp only [Classical.not_and_iff_not_or_not, Classical.not_forall, exists_prop, UInt64.not_le]

/-- **Settings are written unless a number is too great for the format, and read back as they were**:
with their fault if they have one. -/
theorem parse_render (c : Config) :
    (c.render? = none ↔ greatestInteger < c.workerPoolSize
      ∨ ∃ m ∈ c.monitors, greatestInteger < m.clusterId ∨ greatestInteger < m.intervalSecs)
    ∧ ∀ text, c.render? = some text →
      parse? text = some c
      ∧ ofFile (some text) = match c.fault? with
        | none => .ok c
        | some fault => .error (.invalid fault) := by
  refine ⟨render?_eq_none_iff, ?_⟩
  intro text htext
  obtain ⟨hwritable, rfl⟩ := render?_eq_some_iff.mp htext
  have hparse := parse?_lines hwritable
  refine ⟨hparse, ?_⟩
  rw [ofFile, ofText, hparse]
  cases hfault : c.fault? with
  | none => simp only [hfault]
  | some fault => simp only [hfault]

/-- Settings with an empty pool, and with a directory that has quotes of both kinds in runs, a line feed,
a backslash and control characters. -/
def quotedDir : Config :=
  { dataDir := "a\n\x27\x27\x27 \"\"\"\"\\\t\x07\"\"", workerPoolSize := 0, trackingMode := .node
    monitors := [⟨1, 60⟩, ⟨1, 0⟩] }

/-- Every third quote of a run is escaped, and two stand before the closing ones. -/
def quotedDirText : String :=
  "data_dir = \"\"\"\na\n\x27\x27\x27 \"\"\\\"\"\\\\\\t\\u0007\"\"\"\"\"\n" ++
  "worker_pool_size = 0\ntracking_mode = \"node\"\n\n" ++
  "[[monitors]]\ncluster_id = 1\ninterval_secs = 60\n\n" ++
  "[[monitors]]\ncluster_id = 1\ninterval_secs = 0\n"

theorem parse_render_quotedDir :
    quotedDir.render? = some quotedDirText ∧ parse? quotedDirText = some quotedDir
      ∧ ofFile (some quotedDirText) = .error (.invalid .emptyPool) := by
  have hrender : quotedDir.render? = some quotedDirText := by decide +kernel
  obtain ⟨hparse, hfile⟩ := (parse_render quotedDir).2 _ hrender
  exact ⟨hrender, hparse, hfile⟩

end Config

end FleetHealth
