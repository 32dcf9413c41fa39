import FleetHealth.Run.Report
import FleetHealth.Run.Target
/-!
# A run

A run checks the targets of a cluster with a bounded number of workers, which take them from one queue.
The workers go on independently of each other, so a run is a machine with labelled steps: a label says
which worker does what, and any order of labels that the machine allows is a course of the run. A worker
holds its target in its state, so it is known what is lost with it.
-/

namespace FleetHealth

/-- The time of a step. -/
structure Moment where
  /-- Milliseconds on a clock that never goes back, by which waiting is measured. -/
  clock : Nat
  /-- Seconds of the calendar, as records carry them. -/
  now : UInt64
  deriving DecidableEq, Repr, Inhabited

/-- What a worker is doing. -/
inductive Worker where
  /-- It is free to take a target. -/
  | free
  /-- It is about to probe its target. -/
  | poised (t : Target) (a : Attempt)
  /-- Its probe was sent at a time and will end with a reply. -/
  | probing (t : Target) (a : Attempt) (sent : Nat) (reply : Reply)
  /-- It waits for a time, to try again. -/
  | pausing (t : Target) (a : Attempt) (wake : Nat)
  /-- Its check has a result, which is not settled yet. -/
  | checked (t : Target) (result : CheckResult)
  /-- It found the queue empty and ended. -/
  | ended
  /-- It was brought down by a probe of its target. -/
  | lost (t : Target)
  deriving DecidableEq, Repr, Inhabited

namespace Worker

/-- Whether the worker will do nothing any more. -/
def isOver : Worker → Bool
  | .ended => true
  | .lost _ => true
  | _ => false

/-- The time for which the worker waits, if it does. -/
def due? : Worker → Option Nat
  | .probing _ _ sent reply => some (sent + reply.latency)
  | .pausing _ _ wake => some wake
  | _ => none

/-- The target that the worker holds. -/
def target? : Worker → Option Target
  | .poised t _ => some t
  | .probing t _ _ _ => some t
  | .pausing t _ _ => some t
  | .checked t _ => some t
  | .lost t => some t
  | _ => none

/-- The worker after the reply to its probe. -/
def answered (p : PolicySnapshot) (t : Target) (a : Attempt) (sent clock : Nat) (reply : Reply) :
    Worker :=
  match reply.outcome with
  | none => .lost t
  | some o =>
    match a.after p (clock - sent) o with
    | .done result => .checked t result
    | .again next =>
      if p.tryDelay = 0 then .poised t next else .pausing t next (clock + p.tryDelay.toNat)

end Worker

/-- The state of a run. -/
structure Run where
  settings : RunSettings
  /-- The nodes without an address to probe. -/
  unaddressed : List Node
  /-- The targets that were put into the queue, in order. -/
  dispatched : List Target
  queue : List Target
  workers : List Worker
  /-- The reports on settled checks, in the order of settling. -/
  reports : List Report
  /-- The store that keeps health, if it is not the store of the fleet. -/
  ledger : Option Store

/-- A step of a run, by the worker that takes it. -/
inductive RunLabel where
  /-- A free worker takes the next target, or ends if there is none. -/
  | take (w : Nat)
  /-- A worker sends a probe, which will end with a reply. -/
  | send (w : Nat) (reply : Reply)
  /-- A worker receives the reply to its probe. -/
  | receive (w : Nat)
  /-- A worker ends its pause. -/
  | resume (w : Nat)
  /-- A worker settles its check. -/
  | settle (w : Nat)
  deriving DecidableEq, Repr

namespace Run

/-- The number of workers for a number of targets: as many as the pool allows, which is at least one,
and no more than targets. -/
def workerCount (poolSize targets : Nat) : Nat :=
  min (max poolSize 1) targets

/-- The targets among resolved nodes: those with an address. -/
def addressed (targets : List (Node × Option Address)) : List Target :=
  targets.filterMap fun (n, a) => a.map fun a => ⟨n, a⟩

/-- The resolved nodes without an address. -/
def withoutAddress (targets : List (Node × Option Address)) : List Node :=
  targets.filterMap fun (n, a) => if a.isNone then some n else none

/-- The run of what was resolved, before its first step. -/
def start (r : Resolved) (poolSize : Nat) (mode : TrackingMode) (handlers : List Handler)
    (ledger : Option Store) : Run :=
  let targets := addressed r.targets
  { settings := { policy := r.policy, mode, handlers }
    unaddressed := withoutAddress r.targets
    dispatched := targets
    queue := targets
    workers := List.replicate (workerCount poolSize targets.length) .free
    reports := []
    ledger }

/-- The run with another state of one worker. -/
def setWorker (r : Run) (w : Nat) (state : Worker) : Run :=
  { r with workers := r.workers.set w state }

/-- One step of a run, at a moment, with the store of the fleet. There is none if the worker is not in
the state that the label calls for, or has to wait longer. -/
def step (m : Moment) (s : Store) (r : Run) : RunLabel → Option (Store × Run)
  | .take w =>
    match r.workers[w]?, r.queue with
    | some .free, [] => some (s, r.setWorker w .ended)
    | some .free, t :: rest => some (s, { r with queue := rest }.setWorker w (.poised t {}))
    | _, _ => none
  | .send w reply =>
    match r.workers[w]? with
    | some (.poised t a) => some (s, r.setWorker w (.probing t a m.clock reply))
    | _ => none
  | .receive w =>
    match r.workers[w]? with
    | some (.probing t a sent reply) =>
      if sent + reply.latency ≤ m.clock then
        some (s, r.setWorker w (.answered r.settings.policy t a sent m.clock reply))
      else none
    | _ => none
  | .resume w =>
    match r.workers[w]? with
    | some (.pausing t a wake) =>
      if wake ≤ m.clock then some (s, r.setWorker w (.poised t a)) else none
    | _ => none
  | .settle w =>
    match r.workers[w]? with
    | some (.checked t result) =>
      let (report, s, ledger) := r.settings.settle t result m.now s r.ledger
      some (s, { r with reports := r.reports ++ [report], ledger }.setWorker w .free)
    | _ => none

/-- Whether every worker is over. -/
def isOver (r : Run) : Bool :=
  r.workers.all Worker.isOver

/-- The number of probes under way. -/
def inFlight (r : Run) : Nat :=
  r.workers.countP fun
    | .probing _ _ _ _ => true
    | _ => false

/-- The reports of a run that is over: first the nodes without an address, then the targets that no
report names, then the settled checks. -/
def results (r : Run) : List Report :=
  r.unaddressed.map .noAddress
    ++ (r.dispatched.filter fun t =>
        !r.reports.any fun report => report.addressId == some t.address.id).map .aborted
    ++ r.reports

end Run

/-- Reports in the order of their nodes. -/
def sortReports (reports : List Report) : List Report :=
  reports.mergeSort fun a b => a.nodeId ≤ b.nodeId

end FleetHealth
