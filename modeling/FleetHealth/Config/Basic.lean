import FleetHealth.Fleet.Codec
import FleetHealth.Toml.Document
import FleetHealth.Toml.Printer
/-!
# Settings

The settings of the service, their defaults, what makes them valid, and their written form.
-/

namespace FleetHealth

/-- A cluster that is checked at regular intervals. -/
structure MonitorSettings where
  clusterId : UInt64
  intervalSecs : UInt64 := 60
  deriving DecidableEq, Repr, Inhabited

/-- The settings of the service. -/
structure Config where
  /-- The directory of the state database. -/
  dataDir : String := "edgewatch-data"
  /-- How many targets of a run are probed at a time. -/
  workerPoolSize : UInt64 := 128
  trackingMode : TrackingMode := .address
  monitors : List MonitorSettings := []
  deriving DecidableEq, Repr, Inhabited

/-- What makes settings unusable. -/
inductive ConfigFault where
  | emptyPool
  | zeroInterval (clusterId : UInt64)
  | monitoredTwice (clusterId : UInt64)
  deriving DecidableEq, Repr, Inhabited

/-- Why no settings could be loaded. -/
inductive ConfigError where
  /-- There is no file. -/
  | missingFile
  /-- The file does not hold settings. -/
  | unreadable
  | invalid (fault : ConfigFault)
  deriving DecidableEq, Repr, Inhabited

/-- The wording of a fault. -/
def ConfigFault.message : ConfigFault → String
  | .emptyPool => "worker_pool_size must be at least 1"
  | .zeroInterval id => s!"monitor for cluster {id.toNat} has a zero interval"
  | .monitoredTwice id => s!"cluster {id.toNat} is monitored twice"

/-- The wording of an error. -/
def ConfigError.message : ConfigError → String
  | .missingFile => "No such file or directory (os error 2)"
  | .unreadable => "TOML parse error"
  | .invalid fault => fault.message

/-- A format in which settings are written, as far as records differ between formats. -/
structure Dialect where
  /-- Which payload a plain name may have. -/
  bare : Json → Bool
  /-- Whether an array that stands for a record may hold more than its fields. -/
  surplus : Bool

/-- Whether a value is an array or an object with nothing in it. -/
def isHollow : Json → Bool
  | .arr [] => true
  | .obj [] => true
  | _ => false

/-- Records in JSON. -/
def Dialect.json : Dialect := ⟨Codec.isNull, false⟩

/-- Records in TOML, which has no `null`. -/
def Dialect.toml : Dialect := ⟨isHollow, true⟩

/-- Monitored clusters. -/
def MonitorSettings.codec (dialect : Dialect) : Codec MonitorSettings :=
  Codec.recordWith dialect.surplus
    (.cons "cluster_id" .uint64 .refused <|
      .cons "interval_secs" .uint64 (.always 60) .nil)
    (fun m => (m.clusterId, m.intervalSecs, ()))
    (fun (clusterId, intervalSecs, ()) => { clusterId, intervalSecs })

/-- Settings, none of which need be written. -/
def Config.codec (dialect : Dialect) : Codec Config :=
  Codec.recordWith dialect.surplus
    (.cons "data_dir" .string (.always "edgewatch-data") <|
      .cons "worker_pool_size" .uint64 (.always 128) <|
      .cons "tracking_mode" (.choice dialect.bare TrackingMode.name TrackingMode.all)
        (.always .address) <|
      .cons "monitors" (.list (MonitorSettings.codec dialect)) (.always []) .nil)
    (fun c => (c.dataDir, c.workerPoolSize, c.trackingMode, c.monitors, ()))
    (fun (dataDir, workerPoolSize, trackingMode, monitors, ()) =>
      { dataDir, workerPoolSize, trackingMode, monitors })

namespace Config

/-- The first fault of a list of monitored clusters, where those in `seen` came before. -/
def firstFault (seen : List UInt64) : List MonitorSettings → Option ConfigFault
  | [] => none
  | m :: rest =>
    if m.intervalSecs = 0 then some (.zeroInterval m.clusterId)
    else if seen.contains m.clusterId then some (.monitoredTwice m.clusterId)
    else firstFault (m.clusterId :: seen) rest

/-- The first fault of the settings: an empty pool, or the first monitored cluster with a fault. -/
def fault? (c : Config) : Option ConfigFault :=
  if c.workerPoolSize = 0 then some .emptyPool else firstFault [] c.monitors

/-- The settings that a text holds, valid or not. -/
def parse? (text : String) : Option Config :=
  (Toml.parse text).bind fun v => (codec .toml).decode v.toJson

/-- The valid settings that a text holds. -/
def ofText (text : String) : Except ConfigError Config :=
  match parse? text with
  | none => .error .unreadable
  | some c =>
    match c.fault? with
    | some fault => .error (.invalid fault)
    | none => .ok c

/-- The settings in a file, `none` standing for a file that does not exist. -/
def ofFile : Option String → Except ConfigError Config
  | some text => ofText text
  | none => .error .missingFile

/-- The settings in a file, or the defaults if it does not exist. -/
def ofFileOrDefault : Option String → Except ConfigError Config
  | some text => ofText text
  | none => .ok {}

/-- The name of the state database in its directory. -/
def databaseName : String := "edgewatch.redb"

/-- The path of the state database. -/
def databasePath (c : Config) : String :=
  if c.dataDir.isEmpty || c.dataDir.toList.getLast? == some '/' then c.dataDir ++ databaseName
  else c.dataDir ++ "/" ++ databaseName

/-! ## The written form -/

/-- The greatest integer of TOML. -/
def greatestInteger : UInt64 := 9223372036854775807

/-- A line that gives a name a value. -/
def line (name : String) (value : List Char) : List Char :=
  name.toList ++ [' ', '=', ' '] ++ value ++ ['\n']

/-- The lines for a monitored cluster. -/
def monitorLines (m : MonitorSettings) : List Char :=
  '\n' :: ("[[monitors]]\n".toList ++ line "cluster_id" (Text.digits m.clusterId.toNat) ++
    line "interval_secs" (Text.digits m.intervalSecs.toNat))

/-- The lines for the settings. -/
def lines (c : Config) : List Char :=
  line "data_dir" (Toml.writeText c.dataDir.toList) ++
    line "worker_pool_size" (Text.digits c.workerPoolSize.toNat) ++
    line "tracking_mode" (Toml.writeText c.trackingMode.name.toList) ++
    (if c.monitors.isEmpty then line "monitors" ['[', ']'] else c.monitors.flatMap monitorLines)

/-- The settings as a text, if no number among them is too great for one. -/
def render? (c : Config) : Option String :=
  if c.workerPoolSize ≤ greatestInteger &&
      c.monitors.all fun m => m.clusterId ≤ greatestInteger && m.intervalSecs ≤ greatestInteger then
    some (String.ofList c.lines)
  else none

end Config

end FleetHealth
