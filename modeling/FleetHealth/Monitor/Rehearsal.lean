import FleetHealth.Monitor.Service
import FleetHealth.Probe.Script
/-!
# Rehearsals

A rehearsal plays one course of the service, on a clock that only moves when nobody has anything to do.
Whoever becomes able to go on lines up behind the others and then goes on until there is something to
wait for. Those who wait for the same time line up in the order in which they began to wait.
-/

namespace FleetHealth

/-- Someone who takes steps of the service. -/
inductive Actor where
  | task (id : Nat)
  | worker (id w : Nat)
  deriving DecidableEq, Repr

/-- Whether an actor acts for a task. -/
def Actor.actsFor (id : Nat) : Actor → Bool
  | .task i => i == id
  | .worker i _ => i == id

/-- The state of a rehearsal. -/
structure Rehearsal (σ : Type) where
  service : Service := {}
  /-- What the answers to probes depend on. -/
  prober : σ
  /-- Who can go on, first to last. -/
  ready : List Actor := []
  /-- Who waits until when, in the order in which they began to wait. -/
  waiting : List (Nat × Actor) := []
  /-- The probes so far, latest first: the address and the time. -/
  sent : List (String × Nat) := []
  /-- The greatest number of probes that were under way at a time. -/
  peak : Nat := 0

namespace Rehearsal

variable {σ : Type}

/-- The number of probes under way. -/
def inFlight (r : Rehearsal σ) : Nat :=
  r.service.tasks.foldl (fun n t => n + (t.run?.map Run.inFlight).getD 0) 0

/-- Takes a step of the service, if there is one for the label. -/
def take (now : UInt64) (label : ServiceLabel) (r : Rehearsal σ) : Rehearsal σ :=
  match r.service.step now label with
  | some service => { r with service }
  | none => r

/-- Lets an actor wait. -/
def waitUntil (r : Rehearsal σ) (time : Nat) (a : Actor) : Rehearsal σ :=
  { r with waiting := r.waiting ++ [(time, a)] }

/-- Sends the probe of a worker. -/
def sendProbe (prober : Prober σ) (now : UInt64) (id w : Nat) (p : PolicySnapshot) (t : Target)
    (r : Rehearsal σ) : Rehearsal σ :=
  let (reply, state) := prober r.prober p t.address.ip
  let r := { r with prober := state, sent := (t.address.ip, r.service.clock) :: r.sent }
  let r := r.take now (.work id (.send w reply))
  { r with peak := max r.peak r.inFlight }

/-- The worker of a task's run, with the policy of the run. -/
def worker? (r : Rehearsal σ) (id w : Nat) : Option (PolicySnapshot × Worker) := do
  let t ← r.service.tasks[id]?
  let run ← t.run?
  let worker ← run.workers[w]?
  some (run.settings.policy, worker)

/-- Lets a worker go on until it waits or is over; its task is then told. There are at most `fuel`
steps. -/
def runWorker (prober : Prober σ) (now : UInt64) (id w : Nat) : Nat → Rehearsal σ → Rehearsal σ
  | 0, r => r
  | fuel + 1, r =>
    let go (label : RunLabel) : Rehearsal σ :=
      runWorker prober now id w fuel (r.take now (.work id label))
    match r.worker? id w with
    | none => r
    | some (_, .free) => go (.take w)
    | some (p, .poised t _) => runWorker prober now id w fuel (r.sendProbe prober now id w p t)
    | some (_, .probing _ _ sent reply) =>
      if sent + reply.latency ≤ r.service.clock then go (.receive w)
      else r.waitUntil (sent + reply.latency) (.worker id w)
    | some (_, .pausing _ _ wake) =>
      if wake ≤ r.service.clock then go (.resume w) else r.waitUntil wake (.worker id w)
    | some (_, .checked _ _) => go (.settle w)
    | some (_, .ended) => { r with ready := r.ready ++ [.task id] }
    | some (_, .lost _) => { r with ready := r.ready ++ [.task id] }

/-- Forgets everyone who acts for a task. -/
def forget (r : Rehearsal σ) (id : Nat) : Rehearsal σ :=
  { r with
    ready := r.ready.filter fun a => !a.actsFor id
    waiting := r.waiting.filter fun entry => !entry.2.actsFor id }

/-- Lets a task go on until it waits for its workers or for a time, or is over. There are at most `fuel`
steps. -/
def runTask (now : UInt64) (id : Nat) : Nat → Rehearsal σ → Rehearsal σ
  | 0, r => r
  | fuel + 1, r =>
    match r.service.tasks[id]? with
    | none => r
    | some t =>
      if t.cancelled then (r.take now (.drop id)).forget id
      else
        match t.state with
        | .due =>
          let r := r.take now (.begin id)
          match (r.service.tasks[id]?).bind Task.run? with
          | some run =>
            let workers := (List.range run.workers.length).map (Actor.worker id)
            runTask now id fuel { r with ready := r.ready ++ workers }
          | none => runTask now id fuel r
        | .running run => if run.isOver then runTask now id fuel (r.take now (.conclude id)) else r
        | .sleeping wake =>
          if wake ≤ r.service.clock then runTask now id fuel (r.take now (.wake id))
          else r.waitUntil wake (.task id)
        | .finished _ => r
        | .dropped => r

/-- Lets an actor go on. -/
def act (prober : Prober σ) (now : UInt64) (fuel : Nat) (r : Rehearsal σ) : Actor → Rehearsal σ
  | .task id => runTask now id fuel r
  | .worker id w => runWorker prober now id w fuel r

/-- Lets everyone go on who can, until nobody can. -/
def settle (prober : Prober σ) (now : UInt64) : Nat → Rehearsal σ → Rehearsal σ
  | 0, r => r
  | fuel + 1, r =>
    match r.ready with
    | [] => r
    | a :: rest => settle prober now fuel (act prober now fuel { r with ready := rest } a)

/-- The earliest time that anyone waits for. -/
def nextTime? (r : Rehearsal σ) : Option Nat :=
  (r.waiting.map (·.1)).min?

/-- Moves the clock to a time and lines up those who waited for it. -/
def moveTo (now : UInt64) (time : Nat) (r : Rehearsal σ) : Rehearsal σ :=
  let r := r.take now (.pass (time - r.service.clock))
  { r with
    ready := r.ready ++ (r.waiting.filter (·.1 ≤ time)).map (·.2)
    waiting := r.waiting.filter fun entry => !(entry.1 ≤ time) }

/-- Plays on to a time, everything that is due at it included. -/
def playUntil (prober : Prober σ) (now : UInt64) (time : Nat) : Nat → Rehearsal σ → Rehearsal σ
  | 0, r => r
  | fuel + 1, r =>
    let r := settle prober now fuel r
    match r.nextTime? with
    | some next =>
      if next ≤ time then playUntil prober now time fuel (r.moveTo now next) else r.moveTo now time
    | none => r.moveTo now time

/-- The outcome of a task that is over. -/
def outcome? (r : Rehearsal σ) (id : Nat) : Option (Except RunError (List Report)) := do
  let t ← r.service.tasks[id]?
  match t.state with
  | .finished outcome => some outcome
  | _ => none

/-- Plays on until a task is over or nobody has anything left to do. -/
def playOut (prober : Prober σ) (now : UInt64) (id : Nat) : Nat → Rehearsal σ → Rehearsal σ
  | 0, r => r
  | fuel + 1, r =>
    let r := settle prober now fuel r
    if (r.outcome? id).isSome then r
    else
      match r.nextTime? with
      | some next => playOut prober now id fuel (r.moveTo now next)
      | none => r

/-- Whether no task is about to run or running. -/
def isResting (r : Rehearsal σ) : Bool :=
  r.service.tasks.all fun t =>
    match t.state with
    | .due => false
    | .running _ => false
    | _ => true

/-- Plays on until no task is about to run or running, or nobody has anything left to do. -/
def playToRest (prober : Prober σ) (now : UInt64) : Nat → Rehearsal σ → Rehearsal σ
  | 0, r => r
  | fuel + 1, r =>
    let r := settle prober now fuel r
    if r.isResting then r
    else
      match r.nextTime? with
      | some next => playToRest prober now fuel (r.moveTo now next)
      | none => r

/-- The number of steps after which a rehearsal is broken off. -/
def stepLimit : Nat := 1000000000

/-- Runs a cluster once: the outcome, and the rehearsal at the end of the run. -/
def runOnce (prober : Prober σ) (now : UInt64) (clusterId : UInt64) (options : RunOptions)
    (r : Rehearsal σ) : Except RunError (List Report) × Rehearsal σ :=
  let id := r.service.tasks.length
  let r := r.take now (.spawn clusterId options none)
  let r := { r with ready := r.ready ++ [.task id], peak := r.inFlight }
  let r := playOut prober now id stepLimit r
  ((r.outcome? id).getD (.ok []), r)

/-- Starts to monitor a cluster, in place of a monitor that it may have. -/
def startMonitor (prober : Prober σ) (now : UInt64) (clusterId : UInt64) (options : RunOptions)
    (interval : Nat) (r : Rehearsal σ) : Rehearsal σ :=
  let id := r.service.tasks.length
  let old := r.service.registry.lookup clusterId
  let r := r.take now (.spawn clusterId options (some interval))
  let r := r.take now (.register id)
  settle prober now stepLimit { r with ready := r.ready ++ .task id :: old.toList.map .task }

/-- Stops monitoring a cluster. -/
def stopMonitor (prober : Prober σ) (now : UInt64) (clusterId : UInt64) (r : Rehearsal σ) :
    Rehearsal σ :=
  let old := r.service.registry.lookup clusterId
  let r := r.take now (.unregister clusterId)
  settle prober now stepLimit { r with ready := r.ready ++ old.toList.map .task }

/-- Stops all monitoring. -/
def stopAll (prober : Prober σ) (now : UInt64) (r : Rehearsal σ) : Rehearsal σ :=
  let old := r.service.registry.map fun entry => Actor.task entry.2
  let r := r.take now .unregisterAll
  settle prober now stepLimit { r with ready := r.ready ++ old }

/-- Plays on until every task rests. -/
def rest (prober : Prober σ) (now : UInt64) (r : Rehearsal σ) : Rehearsal σ :=
  playToRest prober now stepLimit r

/-- Lets time pass. -/
def advance (prober : Prober σ) (now : UInt64) (ms : Nat) (r : Rehearsal σ) : Rehearsal σ :=
  playUntil prober now (r.service.clock + ms) stepLimit r

/-- The rehearsal with the store changed from outside. -/
def withStore (r : Rehearsal σ) (s : Store) : Rehearsal σ :=
  { r with service := { r.service with store := s } }

end Rehearsal

end FleetHealth
