import FleetHealth.Proofs.Monitor.Watch
import FleetHealth.Proofs.Run.Target
/-!
# The cadence of monitors

A monitor makes its first run when it is started, and each of the others an interval after the end of the
one before, however long runs take and whether or not they can be made. So the times of its runs follow
from its own start, its interval and how long its own runs took: what becomes of other monitors does not
count. A monitor that was stopped or replaced makes no further run.

* `Watch.entries` — every entry of a log was made in some state of the service.
* `Watch.goesOn` — the clock can always move on.
* `Watch.keeps_cadence` — the registry and the runs, throughout.
-/

namespace FleetHealth

/-- Whether the runs of a monitor keep to its interval up to now. As long as it is wanted, no run is
missing. -/
structure Cadence (start interval now : Nat) (wanted : Prop) (begins ends : List Nat) : Prop where
  /-- The first run begins with the monitor and each of the others an interval after the end of the one
  before. At most one of these is still to begin, and then it is not late. -/
  turns : ∃ pending, begins ++ pending = start :: ends.map (· + interval) ∧ pending.length ≤ 1
    ∧ (wanted → ∀ due ∈ pending, now ≤ due)
  ordered : ∀ (i b e : Nat), begins[i]? = some b → ends[i]? = some e → b ≤ e
  /-- When a run begins follows from how long those before it took. -/
  begins_eq : ∀ i b, begins[i]? = some b →
    b = ((List.zipWith (fun b e => e - b) begins ends).take i).foldl
      (fun time duration => time + duration + interval) start

/-- The time at which a run begins, by the time at which the one before began and how long it took. -/
theorem begins_eq_of_turns {start interval : Nat} {begins ends pending : List Nat}
    (hturns : begins ++ pending = start :: ends.map (· + interval))
    (hordered : ∀ (i b e : Nat), begins[i]? = some b → ends[i]? = some e → b ≤ e) (i : Nat) :
    ∀ b, begins[i]? = some b →
      b = ((List.zipWith (fun b e => e - b) begins ends).take i).foldl
        (fun time duration => time + duration + interval) start := by
  have hat {j b : Nat} (hb : begins[j]? = some b) : (start :: ends.map (· + interval))[j]? = some b := by
    rw [← hturns, List.getElem?_append_left (List.getElem?_eq_some_iff.mp hb).1]
    exact hb
  induction i with
  | zero =>
    intro b hb
    have hfirst := hat hb
    simpa using hfirst.symm
  | succ i ih =>
    intro b hb
    have hnext := hat hb
    rw [List.getElem?_cons_succ, List.getElem?_map, Option.map_eq_some_iff] at hnext
    obtain ⟨e, he, rfl⟩ := hnext
    obtain ⟨b', hb'⟩ : ∃ b', begins[i]? = some b' := by
      have hi : i + 1 < begins.length := (List.getElem?_eq_some_iff.mp hb).1
      exact ⟨_, List.getElem?_eq_getElem (by omega)⟩
    have hle := hordered i b' e hb' he
    have hduration : (List.zipWith (fun b e => e - b) begins ends)[i]? = some (e - b') := by
      simp [List.getElem?_zipWith, hb', he]
    have hlast := ih b' hb'
    rw [List.take_add_one, hduration, Option.toList_some, List.foldl_append, ← hlast]
    show e + interval = b' + (e - b') + interval
    omega

namespace Watch

variable {v v' : Service} {h h' : MonitorLog} {clusterId : UInt64} {id start interval : Nat}

/-! ## What the log says -/

/-- A monitor that is registered is wanted. -/
theorem wanted_of_monitor (hv : Watch v h) {t : Task} (ht : v.tasks[id]? = some t)
    (hmonitor : h.monitor t.clusterId = some id) : t.cancelled = false := by
  rw [Bool.eq_false_iff]
  intro hcancelled
  exact ((hv.sound.cancelled id t ht).mp hcancelled).2 hmonitor

/-- A task that was started and is wanted is the monitor of its cluster. -/
theorem monitor_of_wants (hv : Watch v h) (hwants : v.Wants id)
    (hstarted : (start, .started clusterId id interval) ∈ h) : h.monitor clusterId = some id := by
  obtain ⟨t, ht, hcancelled⟩ := hwants
  obtain ⟨t', ht', rfl, -⟩ := hv.sound.told _ _ _ _ hstarted
  cases ht.symm.trans ht'
  apply Classical.byContradiction
  intro hnot
  have hmarked := (hv.sound.cancelled id t ht).mpr ⟨⟨start, interval, hstarted⟩, hnot⟩
  rw [hcancelled] at hmarked
  cases hmarked

/-- **A monitor keeps to its interval.** -/
theorem cadence (hv : Watch v h) (hstarted : (start, .started clusterId id interval) ∈ h) :
    Cadence start interval v.clock (h.monitor clusterId = some id) (h.begins id) (h.ends id) := by
  obtain ⟨t, ht, rfl, hinterval⟩ := hv.sound.told _ _ _ _ hstarted
  obtain ⟨start', interval', htimes, -, hpunctual⟩ := hv.sound.punctual id t ht
  cases htimes _ _ _ hstarted
  cases hinterval.symm.trans hpunctual.interval_eq
  obtain ⟨pending, hturns, hawaits⟩ := hpunctual.turns
  refine ⟨⟨pending, hturns, ?_⟩, hpunctual.ordered, begins_eq_of_turns hturns hpunctual.ordered⟩
  have hkept (hmonitor : h.monitor t.clusterId = some id) : t.state ≠ .dropped :=
    hpunctual.wanted (hv.wanted_of_monitor ht hmonitor)
  cases hstate : t.state with
  | due =>
    rw [hstate] at hawaits
    obtain rfl : pending = [v.clock] := hawaits
    simp
  | running r =>
    rw [hstate] at hawaits
    obtain rfl : pending = [] := hawaits
    simp
  | sleeping wake =>
    rw [hstate] at hawaits
    obtain ⟨rfl, hle⟩ := hawaits
    simpa using fun _ => hle
  | finished outcome =>
    rw [hstate] at hawaits
    cases hawaits
  | dropped =>
    rw [hstate] at hawaits
    exact ⟨hawaits, fun hmonitor => absurd hstate (hkept hmonitor)⟩

/-- Every entry of a log was made in some state of the service, and a run was begun for a task that was
wanted. -/
theorem entries (hv : Watch v h) {before after : MonitorLog} {time : Nat} {e : MonitorEvent}
    (hsplit : h = before ++ (time, e) :: after) :
    ∃ u, Watch u before ∧ u.clock = time ∧ ∀ id, e.begins id = true → u.Wants id := by
  -- an entry is the last one, or was there before
  have hlast {u : Service} {h after : MonitorLog} {last : MonitorEvent} (hu : Watch u h)
      (hwants : ∀ id, last.begins id = true → u.Wants id)
      (hold : ∀ {after}, h = before ++ (time, e) :: after →
        ∃ u, Watch u before ∧ u.clock = time ∧ ∀ id, e.begins id = true → u.Wants id)
      (hsplit : h ++ [(u.clock, last)] = before ++ (time, e) :: after) :
      ∃ u, Watch u before ∧ u.clock = time ∧ ∀ id, e.begins id = true → u.Wants id := by
    rcases List.eq_nil_or_concat after with rfl | ⟨after', entry, rfl⟩
    · obtain ⟨rfl, hentry⟩ := List.append_inj' hsplit rfl
      cases hentry
      exact ⟨u, hu, rfl, hwants⟩
    · rw [List.concat_eq_append, ← List.cons_append, ← List.append_assoc] at hsplit
      exact hold (List.append_inj' hsplit rfl).1
  induction hv generalizing after with
  | opens s => simp at hsplit
  | spawns _ _ _ ih => exact ih hsplit
  | starts hv _ _ _ _ ih => exact hlast hv (fun _ hid => by cases hid) ih hsplit
  | stops _ _ hv ih => exact hlast hv (fun _ hid => by cases hid) ih hsplit
  | stopsAll hv _ ih => exact hlast hv (fun _ hid => by cases hid) ih hsplit
  | begins hv hwants _ _ ih =>
    refine hlast hv ?_ ih hsplit
    intro id hid
    obtain rfl := beq_iff_eq.mp hid
    exact hwants
  | fails hv hwants _ _ ih =>
    refine hlast hv ?_ ih hsplit
    intro id hid
    obtain rfl := beq_iff_eq.mp hid
    exact hwants
  | works _ _ ih => exact ih hsplit
  | ends hv _ _ ih => exact hlast hv (fun _ hid => by cases hid) ih hsplit
  | wakes _ _ _ ih => exact ih hsplit
  | drops _ _ ih => exact ih hsplit
  | passes _ _ _ ih => exact ih hsplit
  | changes _ _ ih => exact ih hsplit

/-! ## Time moves on -/

/-- Whether a service gets to another one in no time, and without another task. -/
structure Goes (v : Service) (h : MonitorLog) (v' : Service) (h' : MonitorLog) : Prop where
  watch : Watch v' h'
  log : h <+: h'
  clock : v'.clock = v.clock
  length : v'.tasks.length = v.tasks.length

theorem Goes.refl (hv : Watch v h) : Goes v h v h :=
  ⟨hv, List.prefix_refl h, rfl, rfl⟩

theorem Goes.trans {v'' : Service} {h'' : MonitorLog} (hgoes : Goes v h v' h')
    (hgoes' : Goes v' h' v'' h'') : Goes v h v'' h'' :=
  ⟨hgoes'.watch, hgoes.log.trans hgoes'.log, hgoes'.clock.trans hgoes.clock,
    hgoes'.length.trans hgoes.length⟩

/-- Whether a service gets to another one in no time by steps of one task, which then has nothing to do
for a while. -/
structure Rests (v : Service) (h : MonitorLog) (id : Nat) (v' : Service) (h' : MonitorLog) : Prop where
  goes : Goes v h v' h'
  others : ∀ other : Nat, other ≠ id → v'.tasks[other]? = v.tasks[other]?
  waits : ∀ t, v'.tasks[id]? = some t → t.Waits v.clock 1

theorem rests_of_waits (hv : Watch v h) {t : Task} (ht : v.tasks[id]? = some t)
    (hwaits : t.Waits v.clock 1) : Rests v h id v h := by
  refine ⟨.refl hv, fun _ _ => rfl, ?_⟩
  intro t' ht'
  cases ht.symm.trans ht'
  exact hwaits

/-- A task comes to rest after a step if it does so from there. -/
theorem rests_of_setTask {v'' : Service} {h'' : MonitorLog} {t : Task} (hlog : h <+: h')
    (hrests : Rests (v.setTask id t) h' id v'' h'') : Rests v h id v'' h'' := by
  have hlength : (v.setTask id t).tasks.length = v.tasks.length := List.length_set
  refine ⟨⟨hrests.goes.watch, hlog.trans hrests.goes.log, hrests.goes.clock,
    hrests.goes.length.trans hlength⟩, ?_, hrests.waits⟩
  intro other hne
  rw [hrests.others other hne]
  exact List.getElem?_set_ne (Ne.symm hne)

theorem getElem?_setTask {t : Task} (ht : v.tasks[id]? = some t) (t' : Task) :
    (v.setTask id t').tasks[id]? = some t' :=
  List.getElem?_set_self (List.getElem?_eq_some_iff.mp ht).1

/-- A run that is over ends, and its task sleeps. -/
theorem rests_of_running (hv : Watch v h) {t : Task} {r : Run} (ht : v.tasks[id]? = some t)
    (hcancelled : t.cancelled = false) (hstate : t.state = .running r) :
    ∃ v' h', Rests v h id v' h' := by
  by_cases hover : r.isOver = true
  · obtain ⟨_, n, -, -, hpunctual⟩ := hv.sound.punctual id t ht
    have hpos := hpunctual.pos
    have hstep : v.step 0 (.conclude id)
        = some (v.setTask id { t with state := .sleeping (v.clock + n) }) := by
      rw [← Task.afterRun_of_interval hpunctual.interval_eq v.clock (.ok r.results)]
      simp [Service.step, ht, Task.run?, hstate, hover]
    have hended := hv.ends ⟨t, ht, hcancelled⟩ hstep
    have hrests := hended.rests_of_waits (getElem?_setTask ht _)
      ⟨hcancelled, Nat.add_le_add_left hpos v.clock⟩
    exact ⟨_, _, rests_of_setTask (List.prefix_append _ _) hrests⟩
  · refine ⟨v, h, hv.rests_of_waits ht ?_⟩
    unfold Task.Waits
    rw [hstate]
    exact ⟨hcancelled, Bool.eq_false_iff.mpr hover⟩

/-- A run that is due begins, if it can be made. -/
theorem rests_of_due (hv : Watch v h) {t : Task} (ht : v.tasks[id]? = some t)
    (hcancelled : t.cancelled = false) (hstate : t.state = .due) : ∃ v' h', Rests v h id v' h' := by
  have hwants : v.Wants id := ⟨t, ht, hcancelled⟩
  have hstep : v.step 0 (.begin id) = some (v.beginRun id t) := by
    simp [Service.step, ht, hstate]
  cases hresolve : v.store.resolve t.clusterId with
  | ok resolved =>
    rw [Service.beginRun_of_resolve hresolve] at hstep
    have hbegun := hv.begins hwants hstep (by rw [Service.run?_setTask ht]; rfl)
    obtain ⟨v', h', hrests⟩ := hbegun.rests_of_running (getElem?_setTask ht _) hcancelled rfl
    exact ⟨v', h', rests_of_setTask (List.prefix_append _ _) hrests⟩
  | error e =>
    obtain ⟨_, n, -, -, hpunctual⟩ := hv.sound.punctual id t ht
    have hpos := hpunctual.pos
    rw [Service.beginRun_of_resolve_eq_error hresolve hpunctual.interval_eq] at hstep
    have hfailed := hv.fails hwants hstep (by rw [Service.run?_setTask ht]; rfl)
    have hrests := hfailed.rests_of_waits (getElem?_setTask ht _)
      ⟨hcancelled, Nat.add_le_add_left hpos v.clock⟩
    exact ⟨_, _, rests_of_setTask (List.prefix_append _ _) hrests⟩

/-- **Every task comes to rest.** -/
theorem exists_rests (hv : Watch v h) {t : Task} (ht : v.tasks[id]? = some t) :
    ∃ v' h', Rests v h id v' h' := by
  cases hcancelled : t.cancelled with
  | true =>
    have hstep : v.step 0 (.drop id) = some (v.setTask id { t with state := .dropped }) := by
      simp [Service.step, ht, hcancelled]
    have hrests := (hv.drops hstep).rests_of_waits (getElem?_setTask ht _) trivial
    exact ⟨_, _, rests_of_setTask (List.prefix_refl h) hrests⟩
  | false =>
    have hresting (hwaits : t.Waits v.clock 1) : ∃ v' h', Rests v h id v' h' :=
      ⟨v, h, hv.rests_of_waits ht hwaits⟩
    unfold Task.Waits at hresting
    cases hstate : t.state with
    | due => exact hv.rests_of_due ht hcancelled hstate
    | running r => exact hv.rests_of_running ht hcancelled hstate
    | sleeping wake =>
      rw [hstate] at hresting
      by_cases hwake : wake ≤ v.clock
      · have hstep : v.step 0 (.wake id) = some (v.setTask id { t with state := .due }) := by
          simp [Service.step, ht, hstate, hwake]
        obtain ⟨v', h', hrests⟩ := (hv.wakes ⟨t, ht, hcancelled⟩ hstep).rests_of_due
          (getElem?_setTask ht _) hcancelled rfl
        exact ⟨v', h', rests_of_setTask (List.prefix_refl h) hrests⟩
      · exact hresting ⟨hcancelled, by omega⟩
    | finished outcome =>
      rw [hstate] at hresting
      exact hresting trivial
    | dropped =>
      rw [hstate] at hresting
      exact hresting trivial

/-- What can be brought about for each task, and lasts while that is done for another, can be brought
about for one task after the other. -/
theorem exists_goes_lt {P : Service → MonitorLog → Nat → Prop} (hv : Watch v h)
    (hnext : ∀ v' h' n, Goes v h v' h' → ∃ v'' h'', Goes v' h' v'' h'' ∧ P v'' h'' n
      ∧ ∀ id, id ≠ n → P v' h' id → P v'' h'' id) (n : Nat) :
    ∃ v' h', Goes v h v' h' ∧ ∀ id, id < n → P v' h' id := by
  induction n with
  | zero => exact ⟨v, h, .refl hv, fun _ hid => absurd hid (Nat.not_lt_zero _)⟩
  | succ n ih =>
    obtain ⟨v', h', hgoes, hbefore⟩ := ih
    obtain ⟨v'', h'', hgoes', hn, hlasts⟩ := hnext v' h' n hgoes
    refine ⟨v'', h'', hgoes.trans hgoes', ?_⟩
    intro id hid
    by_cases heq : id = n
    · rw [heq]
      exact hn
    · exact hlasts id heq (hbefore id (by omega))

theorem exists_rests_lt (hv : Watch v h) (n : Nat) : ∃ v' h', Goes v h v' h'
    ∧ ∀ id, id < n → ∀ t, v'.tasks[id]? = some t → t.Waits v'.clock 1 := by
  refine hv.exists_goes_lt ?_ n
  intro v' h' n hgoes
  cases hn : v'.tasks[n]? with
  | none =>
    refine ⟨v', h', .refl hgoes.watch, ?_, fun _ _ hwaits => hwaits⟩
    intro t ht
    rw [hn] at ht
    cases ht
  | some t₀ =>
    obtain ⟨v'', h'', hrests⟩ := hgoes.watch.exists_rests hn
    refine ⟨v'', h'', hrests.goes, ?_, ?_⟩
    · rw [hrests.goes.clock]
      exact hrests.waits
    · intro id hne hwaits t ht
      rw [hrests.others id hne] at ht
      rw [hrests.goes.clock]
      exact hwaits t ht

theorem exists_started_lt (hv : Watch v h) (n : Nat) : ∃ v' h', Goes v h v' h'
    ∧ ∀ id, id < n → ∀ t, v'.tasks[id]? = some t →
      ∃ start c interval, (start, .started c id interval) ∈ h' := by
  refine hv.exists_goes_lt ?_ n
  intro v' h' n hgoes
  by_cases hn : ∃ t, v'.tasks[n]? = some t ∧ ∀ start c interval, (start, .started c n interval) ∉ h'
  · obtain ⟨t, ht, hfresh⟩ := hn
    obtain ⟨_, interval, -, -, hpunctual⟩ := hgoes.watch.sound.punctual n t ht
    obtain ⟨v'', hstep⟩ : ∃ v'', v'.step 0 (.register n) = some v'' := by
      simp [Service.step, ht]
    obtain ⟨hcancels, -⟩ := Service.register_eq_some ht hstep
    have hstarts := hgoes.watch.starts ht hpunctual.interval_eq hfresh hstep
    refine ⟨v'', _, ⟨hstarts, List.prefix_append _ _, hcancels.clock, hcancels.length⟩, ?_, ?_⟩
    · intro _ _
      exact ⟨v'.clock, t.clusterId, interval, by simp⟩
    · intro id _ hstarted t' ht'
      rw [hcancels.tasks, Option.map_eq_some_iff] at ht'
      obtain ⟨t₀, ht₀, -⟩ := ht'
      obtain ⟨start, c, interval', hmem⟩ := hstarted t₀ ht₀
      exact ⟨start, c, interval', List.mem_append_left _ hmem⟩
  · refine ⟨v', h', .refl hgoes.watch, ?_, fun _ _ hstarted => hstarted⟩
    intro t ht
    apply Classical.byContradiction
    intro hnone
    exact hn ⟨t, ht, fun start c interval hmem => hnone ⟨start, c, interval, hmem⟩⟩

/-- **Time can always move on.** -/
theorem goesOn (hv : Watch v h) : ∃ v' h', h <+: h' ∧ Watch v' h' ∧ v.clock < v'.clock := by
  obtain ⟨v₁, h₁, hgoes₁, hstarted⟩ := hv.exists_started_lt v.tasks.length
  obtain ⟨v₂, h₂, hgoes₂, hwaits⟩ := hgoes₁.watch.exists_rests_lt v.tasks.length
  have hlength : v₂.tasks.length = v.tasks.length := hgoes₂.length.trans hgoes₁.length
  have hidles : v₂.Idles 1 := by
    refine ⟨?_, ?_⟩
    · intro id t ht hcancelled
      have hid : id < v₂.tasks.length := (List.getElem?_eq_some_iff.mp ht).1
      obtain ⟨start, c, interval, hmem⟩ := hstarted id (by omega) _
        (List.getElem?_eq_getElem (by rw [← hgoes₂.length]; exact hid))
      have hmem₂ := hgoes₂.log.subset hmem
      obtain ⟨t', ht', rfl, -⟩ := hgoes₂.watch.sound.told _ _ _ _ hmem₂
      cases ht.symm.trans ht'
      rw [hgoes₂.watch.sound.lookup]
      exact hgoes₂.watch.monitor_of_wants ⟨t, ht, hcancelled⟩ hmem₂
    · intro t ht
      obtain ⟨id, hid⟩ := List.mem_iff_getElem?.mp ht
      have hlt : id < v₂.tasks.length := (List.getElem?_eq_some_iff.mp hid).1
      exact hwaits id (by omega) t hid
  have hpassed := hgoes₂.watch.passes hidles (rfl : Service.step 0 _ _ = some _)
  refine ⟨_, h₂, hgoes₁.log.trans hgoes₂.log, hpassed, ?_⟩
  show v.clock < v₂.clock + 1
  rw [hgoes₂.clock, hgoes₁.clock]
  exact Nat.lt_succ_self _

/-! ## Throughout -/

/-- **Monitors keep their cadence.** However monitors are started, replaced and stopped, and however long
their runs take, those clusters are monitored that were started and not stopped since. The first run of a
monitor begins when it is started, and each of the others just an interval after the end of the one
before; no run is missing as long as the monitor is wanted, up to now and up to every entry of the log,
and a run is only begun by a monitor that was neither stopped nor replaced. So when a run begins follows
from how long the earlier runs of the same monitor took, and from nothing else. And time can always move
on. -/
theorem keeps_cadence (hv : Watch v h) :
    (v.activeMonitors.Pairwise (· < ·) ∧ ∀ clusterId,
      (clusterId ∈ v.activeMonitors ↔ (h.monitor clusterId).isSome)
        ∧ v.isMonitoring clusterId = (h.monitor clusterId).isSome)
    ∧ (∀ start clusterId id interval, (start, .started clusterId id interval) ∈ h →
      Cadence start interval v.clock (h.monitor clusterId = some id) (h.begins id) (h.ends id))
    ∧ (∀ (before after : MonitorLog) time e, h = before ++ (time, e) :: after →
      ∀ start clusterId id interval, (start, .started clusterId id interval) ∈ before →
        Cadence start interval time (before.monitor clusterId = some id) (before.begins id)
          (before.ends id)
        ∧ (e.begins id = true → before.monitor clusterId = some id))
    ∧ ∃ v' h', h <+: h' ∧ Watch v' h' ∧ v.clock < v'.clock := by
  refine ⟨⟨List.pairwise_map.mpr hv.sound.sorted, ?_⟩, ?_, ?_, hv.goesOn⟩
  · intro clusterId
    unfold Service.activeMonitors Service.isMonitoring
    rw [hv.sound.lookup]
    refine ⟨?_, rfl⟩
    rw [← hv.sound.lookup, Option.isSome_iff_exists]
    simp only [Service.lookup_eq_some_iff hv.sound.sorted, List.mem_map]
    constructor
    · rintro ⟨⟨c, id⟩, hmem, rfl⟩
      exact ⟨id, hmem⟩
    · rintro ⟨id, hmem⟩
      exact ⟨(clusterId, id), hmem, rfl⟩
  · intro start clusterId id interval hstarted
    exact hv.cadence hstarted
  · intro before after time e hsplit start clusterId id interval hstarted
    obtain ⟨u, hu, rfl, hwants⟩ := hv.entries hsplit
    exact ⟨hu.cadence hstarted, fun hbegins => hu.monitor_of_wants (hwants id hbegins) hstarted⟩

/-- A monitor with one worker, in some state. -/
def smallTask (clusterId : UInt64) (interval : Nat) (state : TaskState) : Task :=
  ⟨clusterId, { poolSize := 1 }, some interval, false, state⟩

/-- A run of the small cluster with one worker, which has taken the first target or is about to. -/
def smallRun (queue : List Target) (w : Worker) : Run :=
  { Run.start smallPlan 1 .address standardPipeline none with queue, workers := [w] }

/-- A monitor whose probe will bring down its worker after 30 milliseconds. -/
def probingTask : Task :=
  smallTask 1 100 (.running (smallRun [smallTarget 2 "10.0.0.2"]
    (.probing (smallTarget 1 "10.0.0.1") {} 0 { outcome := none, latency := 30 })))

/-- A cluster is run at once, for 30 milliseconds, and another 100 milliseconds later, when it is gone.
In between a second cluster, which was never there, is given up. -/
def neighbourStopped : MonitorLog :=
  [(0, .started 1 0 100), (0, .began 0), (0, .started 2 1 7), (0, .failed 1), (7, .failed 1),
    (7, .stopped 2), (30, .ended 0), (130, .failed 0)]

theorem watch_twoStarted :
    Watch ⟨0, {}, [probingTask, smallTask 2 7 .due], [(1, 0), (2, 1)]⟩ (neighbourStopped.take 3) := by
  have hstarted : Watch ⟨0, smallStore, [smallTask 1 100 .due], [(1, 0)]⟩ (neighbourStopped.take 1) :=
    ((opens smallStore).spawns (by decide)
      (rfl : Service.step 0 _ (.spawn 1 { poolSize := 1 } (some 100)) = some _)).starts
      (rfl : [smallTask 1 100 .due][0]? = some _) rfl (by simp) (rfl : Service.step 0 _ _ = some _)
  have hbegin : Service.step 0 ⟨0, smallStore, [smallTask 1 100 .due], [(1, 0)]⟩ (.begin 0) = some _ :=
    congrArg some (Service.beginRun_of_resolve Store.resolve_smallStore 0)
  have hsent : Watch ⟨0, smallStore, [probingTask], [(1, 0)]⟩ (neighbourStopped.take 2) :=
    ((hstarted.begins ⟨_, rfl, rfl⟩ hbegin rfl).works
      (rfl : Service.step 0 _ (.work 0 (.take 0)) = some _)).works
      (rfl : Service.step 0 _ (.work 0 (.send 0 { outcome := none, latency := 30 })) = some _)
  exact ((hsent.changes {}).spawns (by decide)
    (rfl : Service.step 0 _ (.spawn 2 { poolSize := 1 } (some 7)) = some _)).starts
    (rfl : [probingTask, smallTask 2 7 .due][1]? = some _) rfl (by simp [neighbourStopped])
    (rfl : Service.step 0 _ _ = some _)

theorem watch_oneStopped :
    Watch ⟨7, {}, [probingTask, { smallTask 2 7 .dropped with cancelled := true }], [(1, 0)]⟩
      (neighbourStopped.take 6) := by
  have hfailed : Watch ⟨0, {}, [probingTask, smallTask 2 7 (.sleeping 7)], [(1, 0), (2, 1)]⟩
      (neighbourStopped.take 4) :=
    watch_twoStarted.fails ⟨_, rfl, rfl⟩ (rfl : Service.step 0 _ (.begin 1) = some _) rfl
  have hidles : Service.Idles ⟨0, {}, [probingTask, smallTask 2 7 (.sleeping 7)],
      [(1, 0), (2, 1)]⟩ 7 := by
    constructor
    · rintro (_ | _ | _) _ ⟨⟩ _ <;> rfl
    · simp [probingTask, smallTask, Task.Waits, smallRun, Run.isOver, Worker.isOver]
  have hpassed := hfailed.passes hidles (rfl : Service.step 0 _ _ = some _)
  have hagain := (hpassed.wakes ⟨_, rfl, rfl⟩ (rfl : Service.step 0 _ (.wake 1) = some _)).fails
    ⟨_, rfl, rfl⟩ (rfl : Service.step 0 _ (.begin 1) = some _) rfl
  exact (hagain.stops 0 2).drops (rfl : Service.step 0 _ (.drop 1) = some _)

theorem exists_watch_neighbourStopped : ∃ v, Watch v neighbourStopped ∧ v.clock = 130 := by
  have hsleeps : Watch ⟨30, {}, [smallTask 1 100 (.sleeping 130),
      { smallTask 2 7 .dropped with cancelled := true }], [(1, 0)]⟩ (neighbourStopped.take 7) := by
    have hidles : Service.Idles ⟨7, {}, [probingTask, { smallTask 2 7 .dropped with cancelled := true }],
        [(1, 0)]⟩ 23 := by
      constructor
      · rintro (_ | _ | _) _ ⟨⟩ hwanted
        · rfl
        · cases hwanted
      · simp [probingTask, smallTask, Task.Waits, smallRun, Run.isOver, Worker.isOver]
    have hpassed := watch_oneStopped.passes hidles (rfl : Service.step 0 _ _ = some _)
    have hlost := hpassed.works (rfl : Service.step 0 _ (.work 0 (.receive 0)) = some _)
    exact hlost.ends ⟨_, rfl, rfl⟩ (rfl : Service.step 0 _ (.conclude 0) = some _)
  have hidles : Service.Idles ⟨30, {}, [smallTask 1 100 (.sleeping 130),
      { smallTask 2 7 .dropped with cancelled := true }], [(1, 0)]⟩ 100 := by
    constructor
    · rintro (_ | _ | _) _ ⟨⟩ hwanted
      · rfl
      · cases hwanted
    · simp [smallTask, Task.Waits]
  have hwoken := (hsleeps.passes hidles (rfl : Service.step 0 _ _ = some _)).wakes ⟨_, rfl, rfl⟩
    (rfl : Service.step 0 _ (.wake 0) = some _)
  exact ⟨_, hwoken.fails ⟨_, rfl, rfl⟩ (rfl : Service.step 0 _ (.begin 0) = some _) rfl, rfl⟩

/-- The first cluster is still monitored, and was run at 0 and at 130. -/
theorem keeps_cadence_neighbourStopped : ∃ v, Watch v neighbourStopped ∧ v.clock = 130
    ∧ v.isMonitoring 1 = true ∧ v.isMonitoring 2 = false
    ∧ Cadence 0 100 130 (neighbourStopped.monitor 1 = some 0) [0, 130] [30, 130] := by
  obtain ⟨v, hv, hclock⟩ := exists_watch_neighbourStopped
  obtain ⟨⟨-, hmonitors⟩, hcadence, -, -⟩ := keeps_cadence hv
  refine ⟨v, hv, hclock, (hmonitors 1).2.trans rfl, (hmonitors 2).2.trans rfl, ?_⟩
  have hfirst := hcadence 0 1 0 100 (by decide)
  rw [hclock] at hfirst
  exact hfirst

end Watch

end FleetHealth
