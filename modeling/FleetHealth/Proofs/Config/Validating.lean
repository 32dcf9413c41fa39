import FleetHealth.Config.Basic
import Mathlib.Data.List.Nodup
import Mathlib.Logic.Function.Basic
/-!
# Which settings are accepted

The monitored clusters are gone through once. Each is looked at for its interval first and then for
whether its cluster came before, and the first fault ends the search. What the search carries along is
which clusters it has seen, so that it is described from any point on.

* `Config.firstFault_eq_none_iff`, `Config.firstFault_eq_some_iff` — the search, wherever it begins.
* `ConfigFault.message_injective` — the wording of a fault says which it is.
* `Config.validates_exactly` — which settings are accepted, what the others are refused for, and which
  are loaded.
-/

namespace FleetHealth

theorem one_le_iff_ne_zero {n : UInt64} : 1 ≤ n ↔ n ≠ 0 :=
  UInt64.pos_iff_ne_zero

/-! ## The monitored clusters -/

namespace MonitorSettings

/-- Whether a monitored cluster is at fault, where those in `seen` came before. -/
def FaultyAfter (seen : List UInt64) (m : MonitorSettings) : Prop :=
  m.intervalSecs = 0 ∨ m.clusterId ∈ seen

/-- What it is refused for if it is at fault: a zero interval comes first. -/
def fault (m : MonitorSettings) : ConfigFault :=
  if m.intervalSecs = 0 then .zeroInterval m.clusterId else .monitoredTwice m.clusterId

/-- Monitored clusters none of which has a zero interval, is one of those in `seen` or comes twice. -/
def FaultlessAfter (seen : List UInt64) (ms : List MonitorSettings) : Prop :=
  (∀ m ∈ ms, 1 ≤ m.intervalSecs) ∧ (∀ m ∈ ms, m.clusterId ∉ seen) ∧ (ms.map (·.clusterId)).Nodup

variable {seen ids : List UInt64} {id : UInt64} {m : MonitorSettings} {ms : List MonitorSettings}

theorem faultyAfter_middle : m.FaultyAfter (ids ++ id :: seen) ↔ m.FaultyAfter (id :: (ids ++ seen)) :=
  or_congr_right List.perm_middle.mem_iff

theorem faultlessAfter_nil (seen : List UInt64) : FaultlessAfter seen [] :=
  ⟨nofun, nofun, List.nodup_nil⟩

/-- With nothing before, clusters need only be distinct. -/
theorem faultlessAfter_nil_iff :
    FaultlessAfter [] ms ↔ (∀ m ∈ ms, 1 ≤ m.intervalSecs) ∧ (ms.map (·.clusterId)).Nodup :=
  and_congr_right' (and_iff_right fun _ _ => List.not_mem_nil)

/-- The first cluster is one that came before for the others. -/
theorem faultlessAfter_cons_iff :
    FaultlessAfter seen (m :: ms) ↔ ¬m.FaultyAfter seen ∧ FaultlessAfter (m.clusterId :: seen) ms := by
  have hfirst : ¬m.FaultyAfter seen ↔ 1 ≤ m.intervalSecs ∧ m.clusterId ∉ seen := by
    rw [FaultyAfter, not_or, one_le_iff_ne_zero]
  have hothers : (∀ n ∈ ms, n.clusterId ∉ m.clusterId :: seen)
      ↔ m.clusterId ∉ ms.map (·.clusterId) ∧ ∀ n ∈ ms, n.clusterId ∉ seen := by
    simp only [List.mem_cons, not_or, forall_and, List.mem_map, not_exists, not_and]
  rw [FaultlessAfter, FaultlessAfter, hfirst, hothers, List.forall_mem_cons, List.forall_mem_cons,
    List.map_cons, List.nodup_cons]
  tauto

end MonitorSettings

namespace Config

open MonitorSettings

variable {seen : List UInt64} {m : MonitorSettings} {ms : List MonitorSettings}
  {fault : ConfigFault} {c : Config}

theorem firstFault_cons_of_faulty (h : m.FaultyAfter seen) :
    firstFault seen (m :: ms) = some m.fault := by
  rw [firstFault, MonitorSettings.fault]
  split
  · rfl
  · rename_i hinterval
    rw [if_pos (List.contains_iff_mem.mpr (h.resolve_left hinterval))]

theorem firstFault_cons_of_not_faulty (h : ¬m.FaultyAfter seen) :
    firstFault seen (m :: ms) = firstFault (m.clusterId :: seen) ms := by
  obtain ⟨hinterval, hseen⟩ := not_or.mp h
  rw [firstFault, if_neg hinterval, if_neg (mt List.contains_iff_mem.mp hseen)]

theorem firstFault_eq_none_iff : firstFault seen ms = none ↔ FaultlessAfter seen ms := by
  induction ms generalizing seen with
  | nil => exact iff_of_true rfl (faultlessAfter_nil seen)
  | cons m ms ih =>
    rw [faultlessAfter_cons_iff]
    by_cases hm : m.FaultyAfter seen
    · rw [firstFault_cons_of_faulty hm]
      exact iff_of_false nofun fun h => h.1 hm
    · rw [firstFault_cons_of_not_faulty hm, ih]
      exact (and_iff_right hm).symm

/-- The search ends at the first cluster that is at fault after those before it. -/
theorem firstFault_eq_some_iff :
    firstFault seen ms = some fault ↔ ∃ earlier m later, ms = earlier ++ m :: later
      ∧ FaultlessAfter seen earlier ∧ m.FaultyAfter (earlier.map (·.clusterId) ++ seen)
      ∧ fault = m.fault := by
  induction ms generalizing seen with
  | nil =>
    constructor
    · nofun
    · rintro ⟨earlier, m, later, hsplit, -⟩
      cases earlier <;> cases hsplit
  | cons n ms ih =>
    by_cases hn : n.FaultyAfter seen
    · rw [firstFault_cons_of_faulty hn]
      constructor
      · rintro ⟨⟩
        exact ⟨[], n, ms, rfl, faultlessAfter_nil seen, hn, rfl⟩
      · rintro ⟨earlier, m, later, hsplit, hearlier, -, rfl⟩
        cases earlier with
        | nil =>
          cases hsplit
          rfl
        | cons _ _ =>
          cases hsplit
          exact absurd hn (faultlessAfter_cons_iff.mp hearlier).1
    · -- the search goes on with one more cluster seen, which is the first of those before the fault
      rw [firstFault_cons_of_not_faulty hn, ih]
      constructor
      · rintro ⟨earlier, m, later, rfl, hearlier, hm, rfl⟩
        exact ⟨n :: earlier, m, later, rfl, faultlessAfter_cons_iff.mpr ⟨hn, hearlier⟩,
          faultyAfter_middle.mp hm, rfl⟩
      · rintro ⟨earlier, m, later, hsplit, hearlier, hm, rfl⟩
        cases earlier with
        | nil =>
          cases hsplit
          exact absurd hm hn
        | cons _ earlier =>
          cases hsplit
          exact ⟨earlier, m, later, rfl, (faultlessAfter_cons_iff.mp hearlier).2,
            faultyAfter_middle.mpr hm, rfl⟩

/-! ## The settings -/

/-- Settings with which clusters can be monitored. -/
structure Valid (c : Config) : Prop where
  pool : 1 ≤ c.workerPoolSize
  intervals : ∀ m ∈ c.monitors, 1 ≤ m.intervalSecs
  distinct : (c.monitors.map (·.clusterId)).Nodup

theorem fault?_eq_none_iff : c.fault? = none ↔ c.Valid := by
  have hmonitors : firstFault [] c.monitors = none
      ↔ (∀ m ∈ c.monitors, 1 ≤ m.intervalSecs) ∧ (c.monitors.map (·.clusterId)).Nodup :=
    firstFault_eq_none_iff.trans faultlessAfter_nil_iff
  rw [fault?]
  split
  · rename_i hpool
    exact iff_of_false nofun fun h => one_le_iff_ne_zero.mp h.pool hpool
  · rename_i hpool
    rw [hmonitors]
    exact ⟨fun h => ⟨one_le_iff_ne_zero.mpr hpool, h.1, h.2⟩, fun h => ⟨h.intervals, h.distinct⟩⟩

theorem fault?_eq_some_iff :
    c.fault? = some fault ↔
      (c.workerPoolSize = 0 ∧ fault = .emptyPool)
      ∨ (c.workerPoolSize ≠ 0 ∧ ∃ earlier m later, c.monitors = earlier ++ m :: later
        ∧ (∀ n ∈ earlier, 1 ≤ n.intervalSecs) ∧ (earlier.map (·.clusterId)).Nodup
        ∧ (m.intervalSecs = 0 ∨ m.clusterId ∈ earlier.map (·.clusterId))
        ∧ fault = if m.intervalSecs = 0 then .zeroInterval m.clusterId else .monitoredTwice m.clusterId) := by
  rw [fault?]
  split
  · rename_i hpool
    simp [hpool, eq_comm]
  · rename_i hpool
    rw [firstFault_eq_some_iff]
    simp only [faultlessAfter_nil_iff, List.append_nil, FaultyAfter, MonitorSettings.fault, hpool,
      false_and, false_or, ne_eq, not_false_eq_true, true_and, and_assoc]

theorem ofText_eq_ok_iff {text : String} : ofText text = .ok c ↔ parse? text = some c ∧ c.Valid := by
  rw [ofText]
  cases parse? text with
  | none => exact iff_of_false nofun fun h => nomatch h.1
  | some d =>
    cases hfault : d.fault? with
    | none =>
      simp only [hfault]
      constructor
      · rintro ⟨⟩
        exact ⟨rfl, fault?_eq_none_iff.mp hfault⟩
      · rintro ⟨⟨⟩, -⟩
        rfl
    | some fault =>
      simp only [hfault]
      refine iff_of_false nofun ?_
      rintro ⟨⟨⟩, hvalid⟩
      rw [fault?_eq_none_iff.mpr hvalid] at hfault
      cases hfault

theorem ofFile_eq_ok_iff {file : Option String} :
    ofFile file = .ok c ↔ c.Valid ∧ ∃ text, file = some text ∧ parse? text = some c := by
  cases file with
  | none => exact iff_of_false nofun fun ⟨_, _, h, _⟩ => nomatch h
  | some text => simp only [ofFile, ofText_eq_ok_iff, Option.some.injEq, exists_eq_left', and_comm]

theorem valid_default : Valid {} :=
  ⟨by decide, nofun, List.nodup_nil⟩

theorem ofFileOrDefault_eq_ok_iff {file : Option String} :
    ofFileOrDefault file = .ok c ↔ c.Valid
      ∧ (file = none ∧ c = {} ∨ ∃ text, file = some text ∧ parse? text = some c) := by
  cases file with
  | none =>
    constructor
    · rintro ⟨⟩
      exact ⟨valid_default, .inl ⟨rfl, rfl⟩⟩
    · rintro ⟨-, ⟨-, rfl⟩ | ⟨_, h, -⟩⟩
      · rfl
      · cases h
  | some text =>
    rw [show ofFileOrDefault (some text) = ofFile (some text) from rfl, ofFile_eq_ok_iff]
    simp

end Config

namespace ConfigFault

/-- A number is known from a text that has it between two others. -/
theorem eq_of_between {before after : String} {m n : UInt64}
    (h : before ++ m.toNat.repr ++ after = before ++ n.toNat.repr ++ after) : m = n := by
  rw [String.append_left_inj, String.append_right_inj, ← String.toList_inj, Nat.toList_repr,
    Nat.toList_repr] at h
  have hvalue := congrArg (Nat.ofDigitChars 10 · 0) h
  simp only [Nat.ofDigitChars_ten_toDigits] at hvalue
  exact UInt64.toNat_inj.mp hvalue

/-- The first letter tells the kinds of faults apart, and the number tells the clusters apart. -/
theorem message_injective : Function.Injective message := by
  have hpool : emptyPool.message.toList.head? = some 'w' := rfl
  have hzero (id : UInt64) : (zeroInterval id).message.toList.head? = some 'm' := by
    show ("monitor for cluster " ++ id.toNat.repr ++ " has a zero interval").toList.head? = _
    rw [String.toList_append, String.toList_append]
    rfl
  have htwice (id : UInt64) : (monitoredTwice id).message.toList.head? = some 'c' := by
    show ("cluster " ++ id.toNat.repr ++ " is monitored twice").toList.head? = _
    rw [String.toList_append, String.toList_append]
    rfl
  intro f g h
  have hletters : f.message.toList.head? = g.message.toList.head? := by rw [h]
  cases f <;> cases g <;> simp only [hpool, hzero, htwice, Option.some.injEq, Char.reduceEq] at hletters
  case emptyPool.emptyPool => rfl
  case zeroInterval.zeroInterval => exact congrArg zeroInterval (eq_of_between h)
  case monitoredTwice.monitoredTwice => exact congrArg monitoredTwice (eq_of_between h)

end ConfigFault

namespace Config

/-- **The check of the settings is exact.** They are accepted if the pool is not empty, no monitored
cluster has a zero interval and none is monitored twice. Else an empty pool is complained of, or the first
monitored cluster that has a zero interval or came before, for its interval if both are so; the wording
says which it is. What is loaded, from whatever text or from no file, has passed the check. -/
theorem validates_exactly (c : Config) (file : Option String) :
    (c.fault? = none ↔ c.Valid)
    ∧ (∀ fault, c.fault? = some fault ↔
      (c.workerPoolSize = 0 ∧ fault = .emptyPool)
      ∨ (c.workerPoolSize ≠ 0 ∧ ∃ earlier m later, c.monitors = earlier ++ m :: later
        ∧ (∀ n ∈ earlier, 1 ≤ n.intervalSecs) ∧ (earlier.map (·.clusterId)).Nodup
        ∧ (m.intervalSecs = 0 ∨ m.clusterId ∈ earlier.map (·.clusterId))
        ∧ fault = if m.intervalSecs = 0 then .zeroInterval m.clusterId else .monitoredTwice m.clusterId))
    ∧ Function.Injective ConfigFault.message
    ∧ (ofFile file = .ok c ↔ c.Valid ∧ ∃ text, file = some text ∧ parse? text = some c)
    ∧ (ofFileOrDefault file = .ok c ↔ c.Valid
      ∧ (file = none ∧ c = {} ∨ ∃ text, file = some text ∧ parse? text = some c)) :=
  ⟨fault?_eq_none_iff, fun _ => fault?_eq_some_iff, ConfigFault.message_injective, ofFile_eq_ok_iff,
    ofFileOrDefault_eq_ok_iff⟩

/-- The second cluster comes again with a zero interval, before another one does. -/
example : fault? { monitors := [⟨1, 60⟩, ⟨2, 30⟩, ⟨2, 0⟩, ⟨3, 0⟩, ⟨1, 60⟩] } = some (.zeroInterval 2) := by
  decide

end Config

end FleetHealth
