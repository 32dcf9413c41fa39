import FleetHealth.CommandLine.Invocation
import FleetHealth.Config.Basic
import FleetHealth.Inventory.Basic
import FleetHealth.Monitor.Service
import FleetHealth.Store.Outbox
/-!
# Carrying out a command

A command needs files, a database and a network. A host provides them, in whatever way it does; what the
command makes of them and what it prints is settled here.
-/

namespace FleetHealth

/-- What is found at a path. -/
inductive FileContent where
  | missing
  | text (content : String)
  /-- Something that cannot be read as a text, for a reason in the words of the system. -/
  | unreadable (cause : String)
  deriving DecidableEq, Repr, Inhabited

/-- What commands are carried out on. -/
structure Host (m : Type → Type) where
  readFile : String → m FileContent
  /-- Opens the database of the settings, in its directory, which is made if there is none. A reason for
  a failure is in the words of the system. -/
  openStore : Config → m (Except String Store)
  saveStore : Config → Store → m Unit
  /-- Runs a cluster once: the outcome, and the store after the run. -/
  runOnce : UInt64 → RunOptions → Store → m (Except RunError (List Report) × Store)
  /-- Monitors the clusters of the settings until somebody interrupts it: the store at that time. -/
  monitor : Config → RunOptions → Store → m Store

/-- Why a command failed. -/
inductive CommandError where
  | settings (cause : ConfigError)
  | system (cause : String)
  | unwritableSettings
  | noMonitors
  | unreadableInventory (file : String)
  | malformedInventory (file : String)
  | inventory (cause : InventoryError)
  | run (cause : RunError)
  | store (cause : StoreError)
  deriving DecidableEq, Repr, Inhabited

/-- The wording of an error. -/
def CommandError.message : CommandError → String
  | .settings cause => cause.message
  | .system cause => cause
  | .unwritableSettings => "out-of-range value for u64 type"
  | .noMonitors => "no clusters configured under [[monitors]]"
  | .unreadableInventory file => s!"failed to read inventory {file}"
  | .malformedInventory file => s!"failed to parse inventory {file}"
  | .inventory cause => cause.message
  | .run cause => cause.message
  | .store cause => cause.message

/-- How runs are made under the settings. -/
def Config.runOptions (c : Config) : RunOptions :=
  { poolSize := c.workerPoolSize.toNat, mode := c.trackingMode }

/-- A value as it is printed. -/
def printed (v : Json) : String :=
  v.indented ++ "\n"

namespace Host

variable {m : Type → Type} [Monad m]

/-- The settings for an invocation: those of the file, or the defaults if there is no file, with the
directory of the invocation. -/
def settings (h : Host m) (i : Invocation) : ExceptT CommandError m Config := do
  let text ← match ← h.readFile i.configFile with
    | .missing => pure none
    | .text content => pure (some content)
    | .unreadable cause => throw (.system cause)
  match Config.ofFileOrDefault text with
  | .ok c => return { c with dataDir := i.dataDir.getD c.dataDir }
  | .error cause => throw (.settings cause)

/-- The database of the settings. -/
def store (h : Host m) (c : Config) : ExceptT CommandError m Store := do
  match ← h.openStore c with
  | .ok s => return s
  | .error cause => throw (.system cause)

/-- Checks a cluster once and prints the reports in the order of the nodes. -/
def check (h : Host m) (c : Config) (clusterId : UInt64) : ExceptT CommandError m String := do
  let s ← h.store c
  let (outcome, s) ← h.runOnce clusterId c.runOptions s
  h.saveStore c s
  match outcome with
  | .ok reports => return printed (.arr ((sortReports reports).map Report.toJson))
  | .error cause => throw (.run cause)

/-- Monitors the clusters of the settings. -/
def run (h : Host m) (c : Config) : ExceptT CommandError m String := do
  if c.monitors.isEmpty then throw .noMonitors
  let s ← h.store c
  for monitored in c.monitors do
    if let .error cause := s.findEnabledCluster monitored.clusterId then throw (.store cause)
  h.saveStore c (← h.monitor c c.runOptions s)
  return ""

/-- Loads an inventory from a file. -/
def load (h : Host m) (c : Config) (file : String) : ExceptT CommandError m String := do
  let .text content ← h.readFile file
    | throw (.unreadableInventory file)
  let some inventory := Inventory.codec.read content
    | throw (.malformedInventory file)
  let s ← h.store c
  let (outcome, s) := inventory.load s
  h.saveStore c s
  match outcome with
  | .ok _ => return ""
  | .error cause => throw (.inventory cause)

/-- Prints the pending DNS tasks and, unless they are only to be seen, takes them from the queue. -/
def dnsTasks (h : Host m) (c : Config) (peek : Bool) : ExceptT CommandError m String := do
  let s ← h.store c
  let taken := if peek then s.listDnsTasks.map fun tasks => (tasks, s) else s.takeDnsTasks
  match taken with
  | .ok (tasks, s) =>
    h.saveStore c s
    return printed ((Codec.list DnsTask.codec).encode tasks)
  | .error cause =>
    h.saveStore c s
    throw (.store cause)

/-- Carries out an invocation: what it prints. -/
def execute (h : Host m) (i : Invocation) : ExceptT CommandError m String := do
  let c ← h.settings i
  match i.command with
  | .check clusterId poolSize mode =>
    let pool := poolSize.getD c.workerPoolSize
    h.check { c with workerPoolSize := pool, trackingMode := mode.getD c.trackingMode } clusterId
  | .run => h.run c
  | .load file => h.load c file
  | .dnsTasks peek => h.dnsTasks c peek
  | .config =>
    match c.render? with
    | some text => return text
    | none => throw .unwritableSettings

end Host

/-- What carrying out a command line comes to. -/
structure CommandResult where
  /-- The code of the exit: 0 if all went well, 1 if the command failed, 2 if there is no such command. -/
  code : Nat
  output : String
  /-- Why the command failed. -/
  error : Option String
  deriving DecidableEq, Repr, Inhabited

/-- Carries out a command line on a host. -/
def Host.perform {m : Type → Type} [Monad m] (h : Host m) (words : List String) :
    m CommandResult := do
  match Invocation.parse words with
  | .error _ => return ⟨2, "", none⟩
  | .ok i =>
    match ← (h.execute i).run with
    | .ok output => return ⟨0, output, none⟩
    | .error e => return ⟨1, "", some e.message⟩

end FleetHealth
