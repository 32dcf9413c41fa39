import FleetHealth.CommandLine.Execution
import FleetHealth.Disk.Basic
import FleetHealth.Monitor.Rehearsal
import FleetHealth.Probe.Exchange
/-!
# A host in memory

A disk makes a host together with a network, and time only passes on it while everyone waits. Whoever
monitors on it is interrupted when every cluster had its first run.
-/

namespace FleetHealth.Disk

/-- What a reader finds at a path. -/
def read (d : Disk) (path : String) : FileContent :=
  match DiskPath.parse path >>= d.locate with
  | .ok ⟨.file content, _⟩ => .text content
  | .ok ⟨.database _, _⟩ => .unreadable "stream did not contain valid UTF-8"
  | .ok ⟨.directory _, _⟩ => .unreadable DiskFault.directory.message
  | .error _ => .missing

/-- The text of the path of the database in a directory. -/
def databasePath (directory : String) : String :=
  DiskPath.join directory Config.databaseName

/-- Makes a directory unless it is there. The empty text is the working directory. -/
def prepare (directory : String) : Action Unit := do
  if directory ≠ "" then ensureDirectories (← DiskPath.parse directory)

/-- Opens the database in a directory, both of which are made if there are none. -/
def openStore (directory : String) : StateM Disk (Except String Store) := do
  match ← (prepare directory).run with
  | .error fault => return .error fault.message
  | .ok () =>
    match ← (do openDatabase (← DiskPath.parse (databasePath directory)) : Action Store).run with
    | .error fault => return .error s!"cannot open state database: I/O error: {fault.message}"
    | .ok s => return .ok s

/-- The disk with another database in a directory. -/
def saveStore (d : Disk) (directory : String) (s : Store) : Disk :=
  match DiskPath.parse (databasePath directory) >>= fun p => d.put p (.database s) with
  | .ok d => d
  | .error _ => d

/-- The host that a disk makes with a network, at a time of the calendar. -/
def host (network : Probe.Call → Probe.Delivery) (now : UInt64) : Host (StateM Disk) where
  readFile path := do return (← get).read path
  openStore c := openStore c.dataDir
  saveStore c s := modify fun d => d.saveStore c.dataDir s
  runOnce clusterId options s :=
    let start : Rehearsal Unit := { service := { store := s }, prober := () }
    let (outcome, r) := start.runOnce (Probe.prober network) now clusterId options
    return (outcome, r.service.store)
  monitor c options s :=
    let start : Rehearsal Unit := { service := { store := s }, prober := () }
    let prober := Probe.prober network
    let r := c.monitors.foldl (fun r m =>
      r.startMonitor prober now m.clusterId options (1000 * m.intervalSecs.toNat)) start
    return ((r.rest prober now).stopAll prober now).service.store

end FleetHealth.Disk
