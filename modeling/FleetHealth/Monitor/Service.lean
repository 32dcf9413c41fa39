import FleetHealth.Run.Machine
/-!
# The service

The service performs tasks, each of which runs a cluster once or over and over. A monitor is a task that
is registered for its cluster; there is at most one a cluster. Like a run, the service is a machine with
labelled steps, among them the steps of the runs of its tasks.

Starting a monitor takes two steps, as its task exists before it is registered, and a task that is no
longer wanted is marked before it is dropped. Other steps may come between.
-/

namespace FleetHealth

/-- How the runs of a task are made. -/
structure RunOptions where
  poolSize : Nat := 128
  mode : TrackingMode := .address
  handlers : List Handler := standardPipeline
  /-- The store that keeps health, if it is not the store of the fleet. -/
  ledger : Option Store := none

/-- Where a task stands. -/
inductive TaskState where
  /-- A run is to begin. -/
  | due
  /-- A run is under way. -/
  | running (r : Run)
  /-- The next run begins at a time. -/
  | sleeping (wake : Nat)
  /-- The only run is over. -/
  | finished (outcome : Except RunError (List Report))
  /-- The task was given up. -/
  | dropped

/-- A task of the service. -/
structure Task where
  clusterId : UInt64
  options : RunOptions
  /-- The time between the end of a run and the start of the next, in milliseconds; absent if there is
  only one run. -/
  interval : Option Nat
  /-- Whether the task is to be dropped. -/
  cancelled : Bool
  state : TaskState

namespace Task

/-- The task after a run with an outcome that ended at a time. -/
def afterRun (t : Task) (clock : Nat) (outcome : Except RunError (List Report)) : Task :=
  match t.interval with
  | some interval => { t with state := .sleeping (clock + interval) }
  | none => { t with state := .finished outcome }

/-- The run that is under way. -/
def run? (t : Task) : Option Run :=
  match t.state with
  | .running r => some r
  | _ => none

end Task

/-- The state of the service. A task is known by its place in the list. -/
structure Service where
  /-- Milliseconds since the service started. -/
  clock : Nat := 0
  store : Store := {}
  tasks : List Task := []
  /-- The task of each monitored cluster, in ascending order of clusters. -/
  registry : List (UInt64 × Nat) := []

/-- A step of the service. -/
inductive ServiceLabel where
  /-- Adds a task. -/
  | spawn (clusterId : UInt64) (options : RunOptions) (interval : Option Nat)
  /-- Registers a task as the monitor of its cluster, in place of the one before. -/
  | register (task : Nat)
  /-- Ends the monitoring of a cluster. -/
  | unregister (clusterId : UInt64)
  /-- Ends all monitoring. -/
  | unregisterAll
  /-- Begins a run. -/
  | begin (task : Nat)
  /-- Takes a step of a run. -/
  | work (task : Nat) (label : RunLabel)
  /-- Ends a run whose workers are over. -/
  | conclude (task : Nat)
  /-- Ends the sleep of a task. -/
  | wake (task : Nat)
  /-- Drops a task, and the run that it has under way. -/
  | drop (task : Nat)
  /-- Lets time pass. -/
  | pass (ms : Nat)

namespace Service

/-- The service with another state of one task. -/
def setTask (s : Service) (id : Nat) (t : Task) : Service :=
  { s with tasks := s.tasks.set id t }

/-- Marks a task as no longer wanted. -/
def cancel (s : Service) (id : Nat) : Service :=
  match s.tasks[id]? with
  | some t => s.setTask id { t with cancelled := true }
  | none => s

/-- The entries with a task for a cluster, in the ascending order of clusters. -/
def insertMonitor (clusterId : UInt64) (id : Nat) : List (UInt64 × Nat) → List (UInt64 × Nat)
  | [] => [(clusterId, id)]
  | entry :: rest =>
    if clusterId < entry.1 then (clusterId, id) :: entry :: rest
    else if clusterId = entry.1 then (clusterId, id) :: rest
    else entry :: insertMonitor clusterId id rest

/-- The monitored clusters. -/
def activeMonitors (s : Service) : List UInt64 :=
  s.registry.map (·.1)

/-- Whether a cluster is monitored. -/
def isMonitoring (s : Service) (clusterId : UInt64) : Bool :=
  (s.registry.lookup clusterId).isSome

/-- Begins a run of a task. -/
def beginRun (s : Service) (id : Nat) (t : Task) : Service :=
  match s.store.resolve t.clusterId with
  | .ok r =>
    let o := t.options
    s.setTask id { t with state := .running (.start r o.poolSize o.mode o.handlers o.ledger) }
  | .error e => s.setTask id (t.afterRun s.clock (.error e))

/-- One step of the service at a time of the calendar. There is none if the label does not fit the
state. -/
def step (now : UInt64) (s : Service) : ServiceLabel → Option Service
  | .spawn clusterId options interval =>
    some { s with tasks := s.tasks ++ [⟨clusterId, options, interval, false, .due⟩] }
  | .register id => do
    let t ← s.tasks[id]?
    let s' := match s.registry.lookup t.clusterId with
      | some old => s.cancel old
      | none => s
    some { s' with registry := insertMonitor t.clusterId id s'.registry }
  | .unregister clusterId => do
    let old ← s.registry.lookup clusterId
    some { s.cancel old with registry := s.registry.filter (·.1 != clusterId) }
  | .unregisterAll =>
    some { s.registry.foldl (fun s entry => s.cancel entry.2) s with registry := [] }
  | .begin id => do
    let t ← s.tasks[id]?
    match t.state with
    | .due => some (s.beginRun id t)
    | _ => none
  | .work id label => do
    let t ← s.tasks[id]?
    let r ← t.run?
    let (store, r) ← r.step ⟨s.clock, now⟩ s.store label
    some { s.setTask id { t with state := .running r } with store }
  | .conclude id => do
    let t ← s.tasks[id]?
    let r ← t.run?
    if r.isOver then some (s.setTask id (t.afterRun s.clock (.ok r.results))) else none
  | .wake id => do
    let t ← s.tasks[id]?
    match t.state with
    | .sleeping wake =>
      if wake ≤ s.clock then some (s.setTask id { t with state := .due }) else none
    | _ => none
  | .drop id => do
    let t ← s.tasks[id]?
    if t.cancelled then some (s.setTask id { t with state := .dropped }) else none
  | .pass ms => some { s with clock := s.clock + ms }

end Service

end FleetHealth
