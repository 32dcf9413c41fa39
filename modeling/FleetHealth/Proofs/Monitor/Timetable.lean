import FleetHealth.Proofs.Monitor.Steps
import Mathlib.Data.List.Induction
/-!
# The timetable of a monitor

A log says what happened to the monitors of a service, and when: who monitors which cluster, and when the
runs of each task began and ended. The runs of a task keep to a timetable: the first one begins with the
task, and each of the others an interval after the end of the one before.

* `MonitorLog.monitor`, `MonitorLog.begins`, `MonitorLog.ends` — what a log says.
* `Task.Punctual` — the timetable, with one lemma for each step that a task can take.
-/

namespace FleetHealth

/-! ## Logs -/

/-- What happens to the monitors of a service. -/
inductive MonitorEvent where
  /-- A task becomes the monitor of a cluster, in place of the one before. -/
  | started (clusterId : UInt64) (task interval : Nat)
  | stopped (clusterId : UInt64)
  | stoppedAll
  /-- A run of a task begins. -/
  | began (task : Nat)
  /-- The run of a task ends. -/
  | ended (task : Nat)
  /-- A run of a task begins and ends at once, as its cluster cannot be checked. -/
  | failed (task : Nat)
  deriving DecidableEq

namespace MonitorEvent

/-- The monitor of a cluster after an event, by the one before. -/
def monitorAfter (clusterId : UInt64) (current : Option Nat) : MonitorEvent → Option Nat
  | started other id _ => if other = clusterId then some id else current
  | stopped other => if other = clusterId then none else current
  | stoppedAll => none
  | began _ | ended _ | failed _ => current

/-- Only a start makes a task a monitor. -/
theorem eq_started_of_monitorAfter {clusterId : UInt64} {current : Option Nat} {id : Nat}
    {e : MonitorEvent} (he : e.monitorAfter clusterId current = some id) :
    current = some id ∨ ∃ interval, e = started clusterId id interval := by
  cases e with
  | started other task interval =>
    by_cases hother : other = clusterId
    · rw [monitorAfter, if_pos hother] at he
      cases he
      exact .inr ⟨interval, by rw [hother]⟩
    · rw [monitorAfter, if_neg hother] at he
      exact .inl he
  | stopped other =>
    by_cases hother : other = clusterId
    · rw [monitorAfter, if_pos hother] at he
      cases he
    · rw [monitorAfter, if_neg hother] at he
      exact .inl he
  | stoppedAll => cases he
  | began _ | ended _ | failed _ => exact .inl he

/-- Whether a run of a task begins. -/
def begins (id : Nat) : MonitorEvent → Bool
  | began other | failed other => other == id
  | _ => false

/-- Whether a run of a task ends. -/
def ends (id : Nat) : MonitorEvent → Bool
  | ended other | failed other => other == id
  | _ => false

/-- Whether an event is a matter of one task alone. -/
def IsOf (id : Nat) : MonitorEvent → Prop
  | began other | ended other | failed other => other = id
  | _ => False

end MonitorEvent

/-- What happened to the monitors of a service, and when. -/
abbrev MonitorLog := List (Nat × MonitorEvent)

namespace MonitorLog

/-- The monitor of a cluster: that of the latest start, unless it was stopped since. -/
def monitor (h : MonitorLog) (clusterId : UInt64) : Option Nat :=
  h.foldl (fun current entry => entry.2.monitorAfter clusterId current) none

/-- The times at which runs of a task began. -/
def begins (h : MonitorLog) (id : Nat) : List Nat :=
  (h.filter fun entry => entry.2.begins id).map (·.1)

/-- The times at which runs of a task ended. -/
def ends (h : MonitorLog) (id : Nat) : List Nat :=
  (h.filter fun entry => entry.2.ends id).map (·.1)

variable {h h' : MonitorLog} {clusterId : UInt64} {id : Nat}

theorem monitor_concat (h : MonitorLog) (time : Nat) (e : MonitorEvent) (clusterId : UInt64) :
    monitor (h ++ [(time, e)]) clusterId = e.monitorAfter clusterId (monitor h clusterId) := by
  simp [monitor]

theorem begins_concat (h : MonitorLog) (time : Nat) (e : MonitorEvent) (id : Nat) :
    begins (h ++ [(time, e)]) id = begins h id ++ if e.begins id then [time] else [] := by
  cases he : e.begins id <;> simp [begins, he]

theorem ends_concat (h : MonitorLog) (time : Nat) (e : MonitorEvent) (id : Nat) :
    ends (h ++ [(time, e)]) id = ends h id ++ if e.ends id then [time] else [] := by
  cases he : e.ends id <;> simp [ends, he]

/-- A monitor was started. -/
theorem exists_started (h : MonitorLog) (hmonitor : monitor h clusterId = some id) :
    ∃ start interval, (start, .started clusterId id interval) ∈ h := by
  induction h using List.reverseRecOn with
  | nil => cases hmonitor
  | append_singleton h entry ih =>
    obtain ⟨time, e⟩ := entry
    rw [monitor_concat] at hmonitor
    rcases MonitorEvent.eq_started_of_monitorAfter hmonitor with hold | ⟨interval, rfl⟩
    · obtain ⟨start, interval, hstarted⟩ := ih hold
      exact ⟨start, interval, List.mem_append_left _ hstarted⟩
    · exact ⟨time, interval, by simp⟩

/-- Whether a log goes on with nothing but matters of one task. -/
structure Only (id : Nat) (h h' : MonitorLog) : Prop where
  monitor : ∀ clusterId, monitor h' clusterId = monitor h clusterId
  started : ∀ start clusterId task interval,
    (start, .started clusterId task interval) ∈ h' ↔ (start, .started clusterId task interval) ∈ h
  begins : ∀ other, other ≠ id → begins h' other = begins h other
  ends : ∀ other, other ≠ id → ends h' other = ends h other

theorem Only.refl (id : Nat) (h : MonitorLog) : Only id h h :=
  ⟨fun _ => rfl, fun _ _ _ _ => Iff.rfl, fun _ _ => rfl, fun _ _ => rfl⟩

theorem only_concat (h : MonitorLog) (time : Nat) {e : MonitorEvent} (he : e.IsOf id) :
    Only id h (h ++ [(time, e)]) := by
  have hnot (other : Nat) (hother : other ≠ id) : e.begins other = false ∧ e.ends other = false := by
    cases e with
    | began task | ended task | failed task =>
      obtain rfl : task = id := he
      have hne : (task == other) = false := beq_false_of_ne (Ne.symm hother)
      simp [MonitorEvent.begins, MonitorEvent.ends, hne]
    | started _ _ _ | stopped _ | stoppedAll => cases he
  refine ⟨?_, ?_, ?_, ?_⟩
  · intro clusterId
    rw [monitor_concat]
    cases e <;> first | rfl | cases he
  · intro start clusterId task interval
    cases e <;> simp [MonitorEvent.IsOf] at he ⊢
  · intro other hother
    rw [begins_concat, (hnot other hother).1]
    simp
  · intro other hother
    rw [ends_concat, (hnot other hother).2]
    simp

end MonitorLog

/-! ## Tasks in time -/

/-- Whether a task has nothing to do for a time: it sleeps for longer, or waits for its workers, or it
was given up. -/
def Task.Waits (t : Task) (clock ms : Nat) : Prop :=
  match t.state with
  | .due => False
  | .running r => t.cancelled = false ∧ r.isOver = false
  | .sleeping wake => t.cancelled = false ∧ clock + ms ≤ wake
  | .finished _ => True
  | .dropped => True

/-- Whether these are the times at which the next run of a task is to begin, none while one is under
way. -/
def TaskState.Awaits (clock : Nat) (pending : List Nat) : TaskState → Prop
  | .due => pending = [clock]
  | .running _ => pending = []
  | .sleeping wake => pending = [wake] ∧ clock ≤ wake
  | .finished _ => False
  | .dropped => pending.length ≤ 1

/-- Whether the runs of a task are on time: the first one begins with the task, and each of the others an
interval after the end of the one before. -/
structure Task.Punctual (t : Task) (clock start interval : Nat) (begins ends : List Nat) : Prop where
  interval_eq : t.interval = some interval
  pos : 0 < interval
  turns : ∃ pending, begins ++ pending = start :: ends.map (· + interval)
    ∧ t.state.Awaits clock pending
  ordered : ∀ (i b e : Nat), begins[i]? = some b → ends[i]? = some e → b ≤ e
  past : ∀ b ∈ begins, b ≤ clock
  wanted : t.cancelled = false → t.state ≠ .dropped

namespace Task.Punctual

variable {t : Task} {clock start interval : Nat} {begins ends : List Nat}

theorem spawned (clusterId : UInt64) (options : RunOptions) (clock : Nat) (hpos : 0 < interval) :
    (⟨clusterId, options, some interval, false, .due⟩ : Task).Punctual clock clock interval [] [] :=
  ⟨rfl, hpos, ⟨[clock], rfl, rfl⟩, nofun, nofun, nofun⟩

theorem cancelled (ht : t.Punctual clock start interval begins ends) :
    ({ t with cancelled := true } : Task).Punctual clock start interval begins ends :=
  ⟨ht.interval_eq, ht.pos, ht.turns, ht.ordered, ht.past, nofun⟩

/-- A task that is given up has no next run. -/
theorem dropped (ht : t.Punctual clock start interval begins ends) (hcancelled : t.cancelled = true) :
    ({ t with state := .dropped } : Task).Punctual clock start interval begins ends := by
  refine ⟨ht.interval_eq, ht.pos, ?_, ht.ordered, ht.past, ?_⟩
  rotate_left
  · intro hwanted
    exact absurd hcancelled (ne_true_of_eq_false hwanted)
  obtain ⟨pending, hturns, hawaits⟩ := ht.turns
  refine ⟨pending, hturns, ?_⟩
  show pending.length ≤ 1
  cases hstate : t.state <;> rw [hstate] at hawaits
  · rw [show pending = [clock] from hawaits]
    simp
  · rw [show pending = [] from hawaits]
    simp
  · rw [hawaits.1]
    simp
  · cases hawaits
  · exact hawaits

/-- A run goes on. -/
theorem worked {r r' : Run} (ht : t.Punctual clock start interval begins ends)
    (hstate : t.state = .running r) :
    ({ t with state := .running r' } : Task).Punctual clock start interval begins ends := by
  refine ⟨ht.interval_eq, ht.pos, ?_, ht.ordered, ht.past, nofun⟩
  obtain ⟨pending, hturns, hawaits⟩ := ht.turns
  rw [hstate] at hawaits
  exact ⟨pending, hturns, hawaits⟩

/-- A task wakes up when its sleep is over, no sooner and no later. -/
theorem woken {wake : Nat} (ht : t.Punctual clock start interval begins ends)
    (hstate : t.state = .sleeping wake) (hwake : wake ≤ clock) :
    ({ t with state := .due } : Task).Punctual clock start interval begins ends := by
  refine ⟨ht.interval_eq, ht.pos, ?_, ht.ordered, ht.past, nofun⟩
  obtain ⟨pending, hturns, hawaits⟩ := ht.turns
  rw [hstate] at hawaits
  obtain ⟨hpending, hle⟩ := hawaits
  obtain rfl : wake = clock := by omega
  exact ⟨pending, hturns, hpending⟩

/-- A run begins when it is due. -/
theorem begun {r : Run} (ht : t.Punctual clock start interval begins ends) (hstate : t.state = .due) :
    ({ t with state := .running r } : Task).Punctual clock start interval (begins ++ [clock]) ends := by
  obtain ⟨pending, hturns, hawaits⟩ := ht.turns
  rw [hstate] at hawaits
  obtain rfl : pending = [clock] := hawaits
  refine ⟨ht.interval_eq, ht.pos, ⟨[], ?_, rfl⟩, ?_, ?_, nofun⟩
  · rw [List.append_nil]
    exact hturns
  · intro i b e hb he
    -- as many runs ended as began, so the one that begins now has no end
    have hlength := congrArg List.length hturns
    simp only [List.length_append, List.length_cons, List.length_nil, List.length_map] at hlength
    have hi : i < ends.length := (List.getElem?_eq_some_iff.mp he).1
    rw [List.getElem?_append_left (by omega)] at hb
    exact ht.ordered i b e hb he
  · intro b hb
    rcases List.mem_append.mp hb with hb | hb
    · exact ht.past b hb
    · exact Nat.le_of_eq (List.mem_singleton.mp hb)

/-- A run ends, and the task sleeps for an interval. -/
theorem rested {r : Run} (ht : t.Punctual clock start interval begins ends)
    (hstate : t.state = .running r) :
    ({ t with state := .sleeping (clock + interval) } : Task).Punctual clock start interval begins
      (ends ++ [clock]) := by
  obtain ⟨pending, hturns, hawaits⟩ := ht.turns
  rw [hstate] at hawaits
  obtain rfl : pending = [] := hawaits
  rw [List.append_nil] at hturns
  refine ⟨ht.interval_eq, ht.pos, ⟨[clock + interval], ?_, rfl, by omega⟩, ?_, ht.past, nofun⟩
  · rw [hturns]
    simp
  · intro i b e hb he
    by_cases hi : i < ends.length
    · rw [List.getElem?_append_left hi] at he
      exact ht.ordered i b e hb he
    · rw [List.getElem?_append_right (by omega)] at he
      have he' : e = clock := by
        have hmem := List.mem_of_getElem? he
        exact List.mem_singleton.mp hmem
      rw [he']
      exact ht.past b (List.mem_of_getElem? hb)

/-- A run that cannot be made begins and ends at one time. -/
theorem failed (ht : t.Punctual clock start interval begins ends) (hstate : t.state = .due) :
    ({ t with state := .sleeping (clock + interval) } : Task).Punctual clock start interval
      (begins ++ [clock]) (ends ++ [clock]) := by
  let r : Run := .start default 1 .address [] none
  exact (ht.begun (r := r) hstate).rested rfl

/-- Time passes over a task that has nothing to do. -/
theorem passed {ms : Nat} (ht : t.Punctual clock start interval begins ends) (hwaits : t.Waits clock ms) :
    t.Punctual (clock + ms) start interval begins ends := by
  refine ⟨ht.interval_eq, ht.pos, ?_, ht.ordered, ?_, ht.wanted⟩
  · obtain ⟨pending, hturns, hawaits⟩ := ht.turns
    refine ⟨pending, hturns, ?_⟩
    unfold Task.Waits at hwaits
    cases hstate : t.state <;> rw [hstate] at hwaits hawaits
    · cases hwaits
    · exact hawaits
    · exact ⟨hawaits.1, hwaits.2⟩
    · exact hawaits
    · exact hawaits
  · intro b hb
    have hle := ht.past b hb
    omega

end Task.Punctual

theorem Task.afterRun_of_interval {t : Task} {interval : Nat} (hinterval : t.interval = some interval)
    (clock : Nat) (outcome : Except RunError (List Report)) :
    t.afterRun clock outcome = { t with state := .sleeping (clock + interval) } := by
  unfold Task.afterRun
  rw [hinterval]

namespace Service

variable {v v' : Service} {now : UInt64} {id : Nat} {t t' : Task}

theorem run?_setTask (ht : v.tasks[id]? = some t) (t' : Task) : (v.setTask id t').run? id = t'.run? := by
  have hid := (List.getElem?_eq_some_iff.mp ht).1
  simp [run?, setTask, List.getElem?_set_self hid]

theorem beginRun_of_resolve {resolved : Resolved} (hresolve : v.store.resolve t.clusterId = .ok resolved)
    (id : Nat) : v.beginRun id t = v.setTask id { t with state := .running (.start resolved
      t.options.poolSize t.options.mode t.options.handlers t.options.ledger) } := by
  unfold beginRun
  rw [hresolve]

theorem beginRun_of_resolve_eq_error {e : RunError} {interval : Nat}
    (hresolve : v.store.resolve t.clusterId = .error e) (hinterval : t.interval = some interval)
    (id : Nat) :
    v.beginRun id t = v.setTask id { t with state := .sleeping (v.clock + interval) } := by
  unfold beginRun
  rw [hresolve]
  exact congrArg (v.setTask id) (Task.afterRun_of_interval hinterval _ _)

theorem wake_eq_some (hstep : v.step now (.wake id) = some v') :
    ∃ t wake, v.tasks[id]? = some t ∧ t.state = .sleeping wake ∧ wake ≤ v.clock
      ∧ v' = v.setTask id { t with state := .due } := by
  simp only [step, Option.bind_eq_bind, Option.bind_eq_some_iff] at hstep
  obtain ⟨t, ht, hstep⟩ := hstep
  split at hstep
  · rename_i wake hstate
    split at hstep
    · rename_i hwake
      exact ⟨t, wake, ht, hstate, hwake, (Option.some.inj hstep).symm⟩
    · cases hstep
  · cases hstep

theorem drop_eq_some (hstep : v.step now (.drop id) = some v') :
    ∃ t, v.tasks[id]? = some t ∧ t.cancelled = true
      ∧ v' = v.setTask id { t with state := .dropped } := by
  simp only [step, Option.bind_eq_bind, Option.bind_eq_some_iff] at hstep
  obtain ⟨t, ht, hstep⟩ := hstep
  split at hstep
  · rename_i hcancelled
    exact ⟨t, ht, hcancelled, (Option.some.inj hstep).symm⟩
  · cases hstep

end Service

end FleetHealth
