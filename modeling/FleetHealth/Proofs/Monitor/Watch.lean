import FleetHealth.Proofs.Monitor.Registry
import FleetHealth.Proofs.Monitor.Timetable
/-!
# Monitors at work

Monitors are started, replaced and stopped while others run and sleep, on a clock that only moves when
nobody has anything to do. The log of it tells who monitors which cluster, and every task keeps to its
timetable.

* `Watch` — what may become of a service that only monitors, with the log of it.
* `Service.Sound` — the invariant.
* `Watch.sound` — so it is throughout: one lemma for calls, one for steps of a task, one for time.
-/

namespace FleetHealth

/-! ## The service -/

namespace Service

variable {v v' : Service} {h h' : MonitorLog} {id : Nat} {t t' : Task} {clusterId : UInt64}

/-- Whether a task is there and not to be dropped. -/
def Wants (v : Service) (id : Nat) : Prop :=
  ∃ t, v.tasks[id]? = some t ∧ t.cancelled = false

/-- Whether nobody has anything to do for a time: every task that is not to be dropped monitors its
cluster, and none has something to do. -/
structure Idles (v : Service) (ms : Nat) : Prop where
  registered : ∀ id t, v.tasks[id]? = some t → t.cancelled = false →
    v.registry.lookup t.clusterId = some id
  waits : ∀ t ∈ v.tasks, t.Waits v.clock ms

/-! ### What holds throughout -/

/-- Whether a log tells who monitors what, and every task runs in its own time. -/
structure Sound (v : Service) (h : MonitorLog) : Prop where
  sorted : v.registry.Pairwise fun a b => a.1 < b.1
  lookup : ∀ clusterId, v.registry.lookup clusterId = h.monitor clusterId
  told : ∀ start clusterId id interval, (start, .started clusterId id interval) ∈ h →
    ∃ t, v.tasks[id]? = some t ∧ t.clusterId = clusterId ∧ t.interval = some interval
  /-- A task is to be dropped if it was a monitor and is none any more. -/
  cancelled : ∀ id t, v.tasks[id]? = some t → (t.cancelled = true
    ↔ (∃ start interval, (start, .started t.clusterId id interval) ∈ h) ∧ h.monitor t.clusterId ≠ some id)
  /-- A task that is not a monitor yet was spawned just now. -/
  punctual : ∀ id t, v.tasks[id]? = some t → ∃ start interval,
    (∀ time clusterId n, (time, .started clusterId id n) ∈ h → time = start)
    ∧ ((∀ time clusterId n, (time, .started clusterId id n) ∉ h) → start = v.clock)
    ∧ t.Punctual v.clock start interval (h.begins id) (h.ends id)
  silent : ∀ id, v.tasks.length ≤ id → h.begins id = [] ∧ h.ends id = []

theorem sound_empty (s : Store) : ({ store := s } : Service).Sound [] where
  sorted := .nil
  lookup _ := rfl
  told _ _ _ _ hstarted := absurd hstarted List.not_mem_nil
  cancelled id t ht := by
    rw [List.getElem?_nil] at ht
    cases ht
  punctual id t ht := by
    rw [List.getElem?_nil] at ht
    cases ht
  silent _ _ := ⟨rfl, rfl⟩

/-- **A call.** Those are to be dropped that were monitors before it and are not after it. -/
theorem Sound.call {ids : List Nat} {e : MonitorEvent} (hs : v.Sound h) (hv : v.Cancels v' ids)
    (hquiet : ∀ id, e.begins id = false ∧ e.ends id = false)
    (hids : ∀ id, id ∈ ids ↔ ∃ clusterId, h.monitor clusterId = some id
      ∧ e.monitorAfter clusterId (h.monitor clusterId) ≠ some id)
    (hstarted : ∀ clusterId id interval, e = .started clusterId id interval →
      (∀ time c n, (time, .started c id n) ∉ h)
        ∧ ∃ t, v.tasks[id]? = some t ∧ t.clusterId = clusterId ∧ t.interval = some interval)
    (hsorted : v'.registry.Pairwise fun a b => a.1 < b.1)
    (hlookup : ∀ clusterId, v'.registry.lookup clusterId
      = e.monitorAfter clusterId (h.monitor clusterId)) :
    v'.Sound (h ++ [(v.clock, e)]) := by
  have hbegins (id : Nat) : MonitorLog.begins (h ++ [(v.clock, e)]) id = h.begins id := by
    rw [MonitorLog.begins_concat, (hquiet id).1]
    simp
  have hends (id : Nat) : MonitorLog.ends (h ++ [(v.clock, e)]) id = h.ends id := by
    rw [MonitorLog.ends_concat, (hquiet id).2]
    simp
  have hfields {id : Nat} {t' : Task} (ht' : v'.tasks[id]? = some t') :
      ∃ t, v.tasks[id]? = some t ∧ t' = if id ∈ ids then { t with cancelled := true } else t := by
    rw [hv.tasks, Option.map_eq_some_iff] at ht'
    obtain ⟨t, ht, rfl⟩ := ht'
    exact ⟨t, ht, rfl⟩
  refine ⟨hsorted, ?_, ?_, ?_, ?_, ?_⟩
  · intro clusterId
    rw [MonitorLog.monitor_concat]
    exact hlookup clusterId
  · intro start clusterId id interval hmem
    obtain ⟨t, ht, hcluster, hinterval⟩ :
        ∃ t, v.tasks[id]? = some t ∧ t.clusterId = clusterId ∧ t.interval = some interval := by
      rcases List.mem_append.mp hmem with hmem | hmem
      · exact hs.told _ _ _ _ hmem
      · cases List.mem_singleton.mp hmem
        exact (hstarted _ _ _ rfl).2
    refine ⟨_, by rw [hv.tasks, ht]; rfl, ?_, ?_⟩
    · split <;> exact hcluster
    · split <;> exact hinterval
  · intro id t' ht'
    obtain ⟨t, ht, rfl⟩ := hfields ht'
    have hcluster : (if id ∈ ids then { t with cancelled := true } else t).clusterId = t.clusterId := by
      split <;> rfl
    have hcancelled : (if id ∈ ids then { t with cancelled := true } else t).cancelled = true
        ↔ id ∈ ids ∨ t.cancelled = true := by
      by_cases hid : id ∈ ids <;> simp [hid]
    rw [hcancelled, hcluster, MonitorLog.monitor_concat]
    constructor
    · rintro (hid | hold)
      · obtain ⟨c, hbefore, hafter⟩ := (hids id).mp hid
        obtain ⟨start, interval, hmem⟩ := MonitorLog.exists_started h hbefore
        obtain ⟨t', ht', rfl, -⟩ := hs.told _ _ _ _ hmem
        cases ht.symm.trans ht'
        exact ⟨⟨start, interval, List.mem_append_left _ hmem⟩, hafter⟩
      · obtain ⟨⟨start, interval, hmem⟩, hnot⟩ := (hs.cancelled id t ht).mp hold
        refine ⟨⟨start, interval, List.mem_append_left _ hmem⟩, ?_⟩
        -- a task that was started before is not started again
        intro hmonitor
        rcases MonitorEvent.eq_started_of_monitorAfter hmonitor with hbefore | ⟨n, rfl⟩
        · exact hnot hbefore
        · exact (hstarted _ _ _ rfl).1 _ _ _ hmem
    · rintro ⟨⟨start, interval, hmem⟩, hnot⟩
      rcases List.mem_append.mp hmem with hmem | hmem
      · by_cases hbefore : h.monitor t.clusterId = some id
        · exact .inl ((hids id).mpr ⟨_, hbefore, hnot⟩)
        · exact .inr ((hs.cancelled id t ht).mpr ⟨⟨start, interval, hmem⟩, hbefore⟩)
      · cases List.mem_singleton.mp hmem
        exact absurd (if_pos rfl) hnot
  · intro id t' ht'
    obtain ⟨t, ht, rfl⟩ := hfields ht'
    obtain ⟨start, interval, htimes, hfresh, hpunctual⟩ := hs.punctual id t ht
    refine ⟨start, interval, ?_, ?_, ?_⟩
    · intro time clusterId n hmem
      rcases List.mem_append.mp hmem with hmem | hmem
      · exact htimes _ _ _ hmem
      · -- a task becomes a monitor at the time at which it was spawned
        cases List.mem_singleton.mp hmem
        exact (hfresh (hstarted _ _ _ rfl).1).symm
    · intro hnone
      rw [hv.clock]
      exact hfresh fun time clusterId n hmem => hnone time clusterId n (List.mem_append_left _ hmem)
    · rw [hv.clock, hbegins, hends]
      split
      · exact hpunctual.cancelled
      · exact hpunctual
  · intro id hid
    rw [hv.length] at hid
    rw [hbegins, hends]
    exact hs.silent id hid

/-- **A step of a task.** -/
theorem Sound.act {t t' : Task} (hs : v.Sound h) (ht : v.tasks[id]? = some t)
    (htasks : v'.tasks = v.tasks.set id t') (hclock : v'.clock = v.clock)
    (hregistry : v'.registry = v.registry) (hcluster : t'.clusterId = t.clusterId)
    (hinterval : t'.interval = t.interval) (hcancelled : t'.cancelled = t.cancelled)
    (honly : MonitorLog.Only id h h')
    (hpunctual : ∀ start interval, t.Punctual v.clock start interval (h.begins id) (h.ends id) →
      t'.Punctual v.clock start interval (h'.begins id) (h'.ends id)) :
    v'.Sound h' := by
  have hother {other : Nat} (hne : other ≠ id) : v'.tasks[other]? = v.tasks[other]? := by
    rw [htasks, List.getElem?_set_ne (Ne.symm hne)]
  have hself : v'.tasks[id]? = some t' := by
    rw [htasks]
    exact List.getElem?_set_self (List.getElem?_eq_some_iff.mp ht).1
  refine ⟨hregistry ▸ hs.sorted, ?_, ?_, ?_, ?_, ?_⟩
  · intro clusterId
    rw [hregistry, hs.lookup, honly.monitor]
  · intro start clusterId task interval hmem
    obtain ⟨t₀, ht₀, rfl, ht₀'⟩ := hs.told _ _ _ _ ((honly.started _ _ _ _).mp hmem)
    by_cases hid : task = id
    · subst hid
      cases ht.symm.trans ht₀
      exact ⟨t', hself, hcluster, hinterval.trans ht₀'⟩
    · exact ⟨t₀, (hother hid).trans ht₀, rfl, ht₀'⟩
  · intro task t₀ ht₀
    simp only [honly.started, honly.monitor]
    by_cases hid : task = id
    · subst hid
      cases hself.symm.trans ht₀
      rw [hcancelled, hcluster]
      exact hs.cancelled task t ht
    · exact hs.cancelled task t₀ ((hother hid).symm.trans ht₀)
  · intro task t₀ ht₀
    simp only [honly.started, hclock]
    by_cases hid : task = id
    · subst hid
      cases hself.symm.trans ht₀
      obtain ⟨start, interval, htimes, hfresh, hold⟩ := hs.punctual task t ht
      exact ⟨start, interval, htimes, hfresh, hpunctual start interval hold⟩
    · obtain ⟨start, interval, htimes, hfresh, hold⟩ :=
        hs.punctual task t₀ ((hother hid).symm.trans ht₀)
      rw [honly.begins task hid, honly.ends task hid]
      exact ⟨start, interval, htimes, hfresh, hold⟩
  · intro task htask
    rw [htasks, List.length_set] at htask
    have hid : task ≠ id := by
      rintro rfl
      rw [List.getElem?_eq_none htask] at ht
      cases ht
    rw [honly.begins task hid, honly.ends task hid]
    exact hs.silent task htask

/-- **A task is spawned.** -/
theorem Sound.spawn {interval : Nat} (hs : v.Sound h) (clusterId : UInt64) (options : RunOptions)
    (hpos : 0 < interval) :
    ({ v with tasks := v.tasks ++ [⟨clusterId, options, some interval, false, .due⟩] } : Service).Sound
      h := by
  have hcases {id : Nat} {t : Task}
      (ht : (v.tasks ++ [⟨clusterId, options, some interval, false, .due⟩])[id]? = some t) :
      v.tasks[id]? = some t
        ∨ v.tasks.length ≤ id ∧ t = ⟨clusterId, options, some interval, false, .due⟩ := by
    by_cases hid : id < v.tasks.length
    · rw [List.getElem?_append_left hid] at ht
      exact .inl ht
    · rw [List.getElem?_append_right (by omega)] at ht
      have hmem := List.mem_of_getElem? ht
      exact .inr ⟨by omega, List.mem_singleton.mp hmem⟩
  have hnone {id : Nat} (hid : v.tasks.length ≤ id) (time : Nat) (c : UInt64) (n : Nat) :
      (time, MonitorEvent.started c id n) ∉ h := by
    intro hmem
    obtain ⟨t, ht, -⟩ := hs.told _ _ _ _ hmem
    rw [List.getElem?_eq_none hid] at ht
    cases ht
  refine ⟨hs.sorted, hs.lookup, ?_, ?_, ?_, ?_⟩
  · intro start c id n hmem
    obtain ⟨t, ht, hfields⟩ := hs.told _ _ _ _ hmem
    have hid : id < v.tasks.length := (List.getElem?_eq_some_iff.mp ht).1
    exact ⟨t, (List.getElem?_append_left hid).trans ht, hfields⟩
  · intro id t ht
    rcases hcases ht with ht | ⟨hid, rfl⟩
    · exact hs.cancelled id t ht
    · constructor
      · intro hcancelled
        cases hcancelled
      · rintro ⟨⟨start, n, hmem⟩, -⟩
        exact absurd hmem (hnone hid start clusterId n)
  · intro id t ht
    rcases hcases ht with ht | ⟨hid, rfl⟩
    · exact hs.punctual id t ht
    · obtain ⟨hbegins, hends⟩ := hs.silent id hid
      refine ⟨v.clock, interval, fun time c n hmem => absurd hmem (hnone hid time c n), fun _ => rfl, ?_⟩
      rw [hbegins, hends]
      exact .spawned clusterId options v.clock hpos
  · intro id hid
    rw [List.length_append] at hid
    exact hs.silent id (by omega)

/-- **Time passes.** -/
theorem Sound.pass {ms : Nat} (hs : v.Sound h) (hidle : v.Idles ms) :
    ({ v with clock := v.clock + ms } : Service).Sound h := by
  refine ⟨hs.sorted, hs.lookup, hs.told, hs.cancelled, ?_, hs.silent⟩
  intro id t ht
  obtain ⟨start, interval, htimes, hfresh, hpunctual⟩ := hs.punctual id t ht
  refine ⟨start, interval, htimes, ?_, hpunctual.passed (hidle.waits t (List.mem_of_getElem? ht))⟩
  intro hnone
  -- nobody is left that is no monitor yet
  have hwanted : t.cancelled = false := by
    rw [Bool.eq_false_iff]
    intro hcancelled
    obtain ⟨⟨time, n, hmem⟩, -⟩ := (hs.cancelled id t ht).mp hcancelled
    exact hnone time t.clusterId n hmem
  have hmonitor := hidle.registered id t ht hwanted
  rw [hs.lookup] at hmonitor
  obtain ⟨time, n, hmem⟩ := MonitorLog.exists_started h hmonitor
  exact absurd hmem (hnone time t.clusterId n)

/-! ### Every step -/

variable {now : UInt64}

theorem Sound.start {interval : Nat} (hs : v.Sound h) (ht : v.tasks[id]? = some t)
    (hinterval : t.interval = some interval)
    (hfresh : ∀ time clusterId n, (time, .started clusterId id n) ∉ h)
    (hstep : v.step now (.register id) = some v') :
    v'.Sound (h ++ [(v.clock, .started t.clusterId id interval)]) := by
  obtain ⟨hcancels, hregistry⟩ := register_eq_some ht hstep
  refine hs.call hcancels (fun _ => ⟨rfl, rfl⟩) ?_ ?_ ?_ ?_
  · intro j
    rw [Option.mem_toList, hs.lookup]
    constructor
    · intro hold
      refine ⟨t.clusterId, hold, ?_⟩
      rw [MonitorEvent.monitorAfter, if_pos rfl]
      intro hsame
      obtain ⟨time, n, hmem⟩ := MonitorLog.exists_started h hold
      exact hfresh time t.clusterId n (Option.some.inj hsame ▸ hmem)
    · rintro ⟨c, hold, hnot⟩
      by_cases hc : t.clusterId = c
      · rw [hc]
        exact hold
      · rw [MonitorEvent.monitorAfter, if_neg hc] at hnot
        exact absurd hold hnot
  · intro clusterId task n he
    cases he
    exact ⟨hfresh, t, ht, rfl, hinterval⟩
  · rw [hregistry]
    exact pairwise_insertMonitor _ _ hs.sorted
  · intro c
    rw [hregistry, lookup_insertMonitor, hs.lookup]
    rfl

theorem Sound.stop (hs : v.Sound h) (now clusterId : UInt64) :
    ((v.step now (.unregister clusterId)).getD v).Sound (h ++ [(v.clock, .stopped clusterId)]) := by
  have hids : ∀ j, j ∈ (v.registry.lookup clusterId).toList ↔ ∃ c, h.monitor c = some j
      ∧ (MonitorEvent.stopped clusterId).monitorAfter c (h.monitor c) ≠ some j := by
    intro j
    rw [Option.mem_toList, hs.lookup]
    constructor
    · intro hold
      refine ⟨clusterId, hold, ?_⟩
      rw [MonitorEvent.monitorAfter, if_pos rfl]
      simp
    · rintro ⟨c, hold, hnot⟩
      by_cases hc : clusterId = c
      · rw [hc]
        exact hold
      · rw [MonitorEvent.monitorAfter, if_neg hc] at hnot
        exact absurd hold hnot
  cases hold : v.registry.lookup clusterId with
  | none =>
    have hstep : v.step now (.unregister clusterId) = none := by
      simp [step, hold]
    rw [hold] at hids
    rw [hstep, Option.getD_none]
    refine hs.call (.refl v) (fun _ => ⟨rfl, rfl⟩) hids (fun _ _ _ he => by cases he) hs.sorted ?_
    intro c
    rw [hs.lookup]
    by_cases hc : clusterId = c
    · rw [← hs.lookup, ← hc, hold, MonitorEvent.monitorAfter, if_pos rfl]
    · rw [MonitorEvent.monitorAfter, if_neg hc]
  | some old =>
    have hstep : v.step now (.unregister clusterId)
        = some { v.cancel old with registry := v.registry.filter (·.1 != clusterId) } := by
      simp [step, hold]
    rw [hold] at hids
    rw [hstep, Option.getD_some]
    have hcancels := (Cancels.refl v).cancel old
    refine hs.call ⟨hcancels.clock, hcancels.tasks⟩ (fun _ => ⟨rfl, rfl⟩) hids
      (fun _ _ _ he => by cases he) ?_ ?_
    · exact hs.sorted.filter _
    · intro c
      show (v.registry.filter (·.1 != clusterId)).lookup c = _
      rw [lookup_filter_ne, hs.lookup]
      rfl

theorem Sound.stopAll (hs : v.Sound h) (hstep : v.step now .unregisterAll = some v') :
    v'.Sound (h ++ [(v.clock, .stoppedAll)]) := by
  simp only [step, Option.some.injEq] at hstep
  subst hstep
  obtain ⟨ids, hcancels, hids⟩ := (Cancels.refl v).cancelAll v.registry
  refine hs.call ⟨hcancels.clock, hcancels.tasks⟩ (fun _ => ⟨rfl, rfl⟩) ?_
    (fun _ _ _ he => by cases he) .nil fun _ => rfl
  intro j
  rw [hids]
  simp only [List.not_mem_nil, false_or, List.mem_map, MonitorEvent.monitorAfter, ← hs.lookup,
    lookup_eq_some_iff hs.sorted]
  constructor
  · rintro ⟨⟨c, id⟩, hmem, rfl⟩
    exact ⟨c, hmem, by simp⟩
  · rintro ⟨c, hmem, -⟩
    exact ⟨(c, j), hmem, rfl⟩

/-- A run begins, or ends at once. -/
theorem Sound.begin (hs : v.Sound h) (hstep : v.step now (.begin id) = some v') :
    v'.Sound (h ++ [(v.clock, if (v'.run? id).isSome then .began id else .failed id)]) := by
  obtain ⟨t, ht, hdue, rfl⟩ := begin_eq_some hstep
  cases hresolve : v.store.resolve t.clusterId with
  | ok resolved =>
    rw [beginRun_of_resolve hresolve, run?_setTask ht, if_pos (by rfl)]
    refine hs.act ht rfl rfl rfl rfl rfl rfl (MonitorLog.only_concat h v.clock rfl) ?_
    intro start interval hpunctual
    rw [MonitorLog.begins_concat, MonitorLog.ends_concat]
    simpa [MonitorEvent.begins, MonitorEvent.ends] using hpunctual.begun hdue
  | error e =>
    obtain ⟨_, interval, -, -, hold⟩ := hs.punctual id t ht
    rw [beginRun_of_resolve_eq_error hresolve hold.interval_eq, run?_setTask ht,
      if_neg (by simp [Task.run?])]
    refine hs.act ht rfl rfl rfl rfl rfl rfl (MonitorLog.only_concat h v.clock rfl) ?_
    intro start interval' hpunctual
    cases hold.interval_eq.symm.trans hpunctual.interval_eq
    rw [MonitorLog.begins_concat, MonitorLog.ends_concat]
    simpa [MonitorEvent.begins, MonitorEvent.ends] using hpunctual.failed hdue

/-- A run ends. -/
theorem Sound.end (hs : v.Sound h) (hstep : v.step now (.conclude id) = some v') :
    v'.Sound (h ++ [(v.clock, .ended id)]) := by
  obtain ⟨t, r, ht, hr, -, rfl⟩ := conclude_eq_some hstep
  obtain ⟨_, interval, -, -, hold⟩ := hs.punctual id t ht
  rw [Task.afterRun_of_interval hold.interval_eq]
  refine hs.act ht rfl rfl rfl rfl rfl rfl (MonitorLog.only_concat h v.clock rfl) ?_
  intro start interval' hpunctual
  cases hold.interval_eq.symm.trans hpunctual.interval_eq
  rw [MonitorLog.begins_concat, MonitorLog.ends_concat]
  simpa [MonitorEvent.begins, MonitorEvent.ends] using hpunctual.rested (Task.state_of_run? hr)

theorem Sound.wake (hs : v.Sound h) (hstep : v.step now (.wake id) = some v') : v'.Sound h := by
  obtain ⟨t, wake, ht, hstate, hwake, rfl⟩ := wake_eq_some hstep
  refine hs.act ht rfl rfl rfl rfl rfl rfl (.refl id h) ?_
  intro start interval hpunctual
  exact hpunctual.woken hstate hwake

theorem Sound.drop (hs : v.Sound h) (hstep : v.step now (.drop id) = some v') : v'.Sound h := by
  obtain ⟨t, ht, hcancelled, rfl⟩ := drop_eq_some hstep
  refine hs.act ht rfl rfl rfl rfl rfl rfl (.refl id h) ?_
  intro start interval hpunctual
  exact hpunctual.dropped hcancelled

theorem Sound.work {label : RunLabel} (hs : v.Sound h) (hstep : v.step now (.work id label) = some v') :
    v'.Sound h := by
  obtain ⟨t, r, store, r', ht, hr, -, rfl⟩ := work_eq_some hstep
  refine hs.act ht rfl rfl rfl rfl rfl rfl (.refl id h) ?_
  intro start interval hpunctual
  exact hpunctual.worked (Task.state_of_run? hr)

end Service

/-! ## All that may happen -/

open Service in
/-- What may become of a service that only monitors, with the log of it: monitors are started with an
interval, which takes two steps, and stopped; tasks go on; and time passes when nobody has anything to do.
The store changes as it may.

A task that is to be dropped takes no step of its own but to be dropped, though its workers may go on until
then. This is no guard of the service, whose steps look at no mark: it is what the runtime does with a task
that was aborted, which it does not poll again. That just those tasks are marked that were stopped or
replaced is a result, `Service.Sound.cancelled`. -/
inductive Watch : Service → MonitorLog → Prop
  | opens (s : Store) : Watch { store := s } []
  | spawns {v v' : Service} {h : MonitorLog} {now : UInt64} {clusterId : UInt64} {options : RunOptions}
    {interval : Nat} : Watch v h → 0 < interval →
    v.step now (.spawn clusterId options (some interval)) = some v' → Watch v' h
  | starts {v v' : Service} {h : MonitorLog} {now : UInt64} {id interval : Nat} {t : Task} :
    Watch v h → v.tasks[id]? = some t → t.interval = some interval →
    (∀ time clusterId n, (time, .started clusterId id n) ∉ h) →
    v.step now (.register id) = some v' →
    Watch v' (h ++ [(v.clock, .started t.clusterId id interval)])
  | stops {v : Service} {h : MonitorLog} (now clusterId : UInt64) :
    Watch v h → Watch ((v.step now (.unregister clusterId)).getD v) (h ++ [(v.clock, .stopped clusterId)])
  | stopsAll {v v' : Service} {h : MonitorLog} {now : UInt64} :
    Watch v h → v.step now .unregisterAll = some v' → Watch v' (h ++ [(v.clock, .stoppedAll)])
  | begins {v v' : Service} {h : MonitorLog} {now : UInt64} {id : Nat} :
    Watch v h → v.Wants id → v.step now (.begin id) = some v' → (v'.run? id).isSome →
    Watch v' (h ++ [(v.clock, .began id)])
  | fails {v v' : Service} {h : MonitorLog} {now : UInt64} {id : Nat} :
    Watch v h → v.Wants id → v.step now (.begin id) = some v' → v'.run? id = none →
    Watch v' (h ++ [(v.clock, .failed id)])
  | works {v v' : Service} {h : MonitorLog} {now : UInt64} {id : Nat} {label : RunLabel} :
    Watch v h → v.step now (.work id label) = some v' → Watch v' h
  | ends {v v' : Service} {h : MonitorLog} {now : UInt64} {id : Nat} :
    Watch v h → v.Wants id → v.step now (.conclude id) = some v' →
    Watch v' (h ++ [(v.clock, .ended id)])
  | wakes {v v' : Service} {h : MonitorLog} {now : UInt64} {id : Nat} :
    Watch v h → v.Wants id → v.step now (.wake id) = some v' → Watch v' h
  | drops {v v' : Service} {h : MonitorLog} {now : UInt64} {id : Nat} :
    Watch v h → v.step now (.drop id) = some v' → Watch v' h
  | passes {v v' : Service} {h : MonitorLog} {now : UInt64} {ms : Nat} :
    Watch v h → v.Idles ms → v.step now (.pass ms) = some v' → Watch v' h
  | changes {v : Service} {h : MonitorLog} (s : Store) : Watch v h → Watch { v with store := s } h

namespace Watch

variable {v : Service} {h : MonitorLog}

/-- **The log tells who monitors what, and every task runs in its own time.** -/
theorem sound (hv : Watch v h) : v.Sound h := by
  induction hv with
  | opens s => exact Service.sound_empty s
  | spawns _ hpos hstep ih =>
    cases hstep
    exact ih.spawn _ _ hpos
  | starts _ ht hinterval hfresh hstep ih => exact ih.start ht hinterval hfresh hstep
  | stops now clusterId _ ih => exact ih.stop now clusterId
  | stopsAll _ hstep ih => exact ih.stopAll hstep
  | begins _ _ hstep hrun ih =>
    have hbegin := ih.begin hstep
    rw [if_pos hrun] at hbegin
    exact hbegin
  | fails _ _ hstep hrun ih =>
    have hbegin := ih.begin hstep
    rw [hrun] at hbegin
    exact hbegin
  | works _ hstep ih => exact ih.work hstep
  | ends _ _ hstep ih => exact ih.end hstep
  | wakes _ _ hstep ih => exact ih.wake hstep
  | drops _ hstep ih => exact ih.drop hstep
  | passes _ hidle hstep ih =>
    cases hstep
    exact ih.pass hidle
  | changes s _ ih => exact ⟨ih.sorted, ih.lookup, ih.told, ih.cancelled, ih.punctual, ih.silent⟩

end Watch

end FleetHealth
