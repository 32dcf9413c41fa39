import FleetHealth.CommandLine.Execution
import FleetHealth.Probe.Exchange
import FleetHealth.Run.Machine
import FleetHealth.Store.Document
import Std.Async.Signal
import Std.Async.TCP
import Std.Async.Timer
import Std.Sync.Mutex
import Std.Time
/-!
# The command

The host that the command runs on: files, a database in a file, connections without TLS, and a thread for
every worker of a run. What is decided, printed and written is settled elsewhere.
-/

namespace FleetHealth

open Std Async

/-! ## Probes -/

/-- The cause of an error of a connection. -/
def dialFault (e : IO.Error) : Probe.DialFault :=
  let text := toString e
  let mentions (part : String) : Bool := (text.splitOn part).length > 1
  if mentions "connection refused" then .refused
  else if mentions "network is unreachable" then .unreachable
  else .other text

/-- The place to connect to for an address. -/
def socketAddress? (address : String) (port : UInt16) : Option Net.SocketAddress :=
  match Net.IPv4Addr.ofString address with
  | some v4 => some (.v4 ⟨v4, port⟩)
  | none => (Net.IPv6Addr.ofString address).map fun v6 => .v6 ⟨v6, port⟩

/-- Receives bytes until they tell the status or the peer closes the connection. -/
partial def receive (socket : TCP.Socket.Client) (method bytes : List Char) : Async Probe.Delivery := do
  match Http.status method bytes with
  | .error .incomplete =>
    match ← socket.recv? 65536 with
    | some chunk => receive socket method (bytes ++ chunk.toList.map fun b => Char.ofNat b.toNat)
    | none => return .received bytes
  | _ => return .received bytes

/-- Places a call. -/
def place (call : Probe.Call) : Async Probe.Delivery := do
  match socketAddress? call.address call.port with
  | none => return .notConnected (.other "failed to lookup address information")
  | some place =>
    let socket ← TCP.Socket.Client.mk
    let fault ←
      try
        socket.connect place
        pure none
      catch e => pure (some (dialFault e))
    match fault with
    | some cause => return .notConnected cause
    | none =>
      if call.secure then return .notSecured .unsupported
      try
        socket.send (String.ofList call.request.text).toUTF8
        receive socket call.request.method []
      catch _ => return .received []

/-- Probes an address under a policy. -/
def probe (p : PolicySnapshot) (ip : String) : IO Outcome := do
  match Probe.Call.plan p ip with
  | .error fault => return ⟨false, some fault.message⟩
  | .ok call =>
    let timeUp : Async Probe.Delivery := do
      Async.sleep (.ofNat call.timeout.toNat)
      return .silent
    let delivery ← (Async.race (place call) timeUp).block
    return Probe.outcome (fun _ => delivery) p ip

/-! ## Runs -/

/-- The time of the calendar. -/
def calendar : IO UInt64 := do
  return UInt64.ofNat (← Time.Timestamp.now).toSecondsSinceUnixEpoch.val.toNat

/-- Waits for a number of milliseconds, or until somebody interrupts it. -/
partial def pause (interrupted : IO.Ref Bool) (ms : Nat) : IO Unit := do
  unless ms = 0 || (← interrupted.get) do
    IO.sleep (UInt32.ofNat (min ms 200))
    pause interrupted (ms - min ms 200)

/-- What the workers of a run share. -/
structure LiveRun where
  store : Mutex Store
  run : IO.Ref Run
  interrupted : IO.Ref Bool

/-- Takes a step of the run at a time. -/
def LiveRun.act (l : LiveRun) (clock : Nat) (label : RunLabel) : IO Unit := do
  let now ← calendar
  l.store.atomically do
    if let some (s, r) := (← l.run.get).step ⟨clock, now⟩ (← get) label then
      set s
      l.run.set r

/-- Does the work of a worker until it is over. -/
partial def LiveRun.work (l : LiveRun) (w : Nat) : IO Unit := do
  let r ← l.run.get
  unless ← l.interrupted.get do
    match r.workers[w]? with
    | some .free => l.act (← IO.monoMsNow) (.take w); l.work w
    | some (.poised t _) =>
      let sent ← IO.monoMsNow
      let outcome ← try (some <$> probe r.settings.policy t.address.ip) catch _ => pure none
      let answered ← IO.monoMsNow
      l.act sent (.send w ⟨answered - sent, outcome⟩)
      l.act answered (.receive w)
      l.work w
    | some (.pausing _ _ wake) =>
      pause l.interrupted (wake - (← IO.monoMsNow))
      l.act (← IO.monoMsNow) (.resume w)
      l.work w
    | some (.checked _ _) => l.act (← IO.monoMsNow) (.settle w); l.work w
    | _ => return

/-- Runs a cluster once on a store. -/
def runLive (store : Mutex Store) (interrupted : IO.Ref Bool) (clusterId : UInt64)
    (o : RunOptions) : IO (Except RunError (List Report)) := do
  let s ← store.atomically get
  match s.resolve clusterId with
  | .error e => return .error e
  | .ok found =>
    let run ← IO.mkRef (Run.start found o.poolSize o.mode o.handlers o.ledger)
    let l : LiveRun := ⟨store, run, interrupted⟩
    let workers ← (List.range (← run.get).workers.length).mapM fun w =>
      IO.asTask (l.work w) .dedicated
    for worker in workers do
      let _ ← IO.wait worker
    return .ok (← run.get).results

/-! ## The host -/

/-- Reads a file. -/
def readText (path : String) : IO FileContent := do
  try
    return .text (← IO.FS.readFile path)
  catch
    | .noFileOrDirectory .. => return .missing
    | e => return .unreadable (toString e)

/-- Writes the database of the settings, so that there is one at any time. -/
def saveDatabase (c : Config) (s : Store) : IO Unit := do
  IO.FS.writeFile (c.databasePath ++ ".new") s.document
  IO.FS.rename (c.databasePath ++ ".new") c.databasePath

/-- Reads the database of the settings. -/
def openDatabase (c : Config) : IO (Except String Store) := do
  try
    unless c.dataDir.isEmpty do IO.FS.createDirAll c.dataDir
    match ← readText c.databasePath with
    | .missing =>
      saveDatabase c {}
      return .ok {}
    | .unreadable cause => return .error cause
    | .text content =>
      match Store.ofDocument? content with
      | some s => return .ok s
      | none => return .error StoreError.unavailable.message
  catch e => return .error (toString e)

/-- Runs a cluster at its interval until somebody interrupts it. -/
partial def monitorLive (c : Config) (store : Mutex Store) (interrupted : IO.Ref Bool)
    (m : MonitorSettings) : IO Unit := do
  unless ← interrupted.get do
    match ← runLive store interrupted m.clusterId c.runOptions with
    | .ok _ => store.atomically do saveDatabase c (← get)
    | .error e => IO.eprintln e.message
    pause interrupted (1000 * m.intervalSecs.toNat)
    monitorLive c store interrupted m

/-- The host that the command runs on. -/
def liveHost : Host IO where
  readFile := readText
  openStore := openDatabase
  saveStore := saveDatabase
  runOnce clusterId options s := do
    let store ← Mutex.new s
    let outcome ← runLive store (← IO.mkRef false) clusterId options
    return (outcome, ← store.atomically get)
  monitor c _ s := do
    let store ← Mutex.new s
    let interrupted ← IO.mkRef false
    let monitors ← c.monitors.mapM fun m =>
      IO.asTask (monitorLive c store interrupted m) .dedicated
    let waiter ← Signal.Waiter.mk .sigint false
    let signal ← waiter.wait
    let _ ← signal.block
    interrupted.set true
    for monitor in monitors do
      let _ ← IO.wait monitor
    store.atomically get

end FleetHealth

/-- Carries out the command line. -/
def main (words : List String) : IO UInt32 := do
  let result ← FleetHealth.liveHost.perform words
  IO.print result.output
  if let .error e := FleetHealth.Invocation.parse words then IO.eprintln ("error: " ++ e.message)
  if let some text := result.error then IO.eprintln ("Error: " ++ text)
  return UInt32.ofNat result.code
