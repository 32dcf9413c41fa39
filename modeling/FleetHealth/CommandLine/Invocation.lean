import FleetHealth.Fleet.Codec
import FleetHealth.Text.Decimal
/-!
# The words of a command line

A command line is a command with options. Options that every command takes may stand before or after the
name of the command, and one that is given on both sides counts as given after it. An option has a name
that starts with two hyphens, and its value follows in the same word behind an equals sign or in the next
word.
-/

namespace FleetHealth

/-- What is to be done. -/
inductive Command where
  /-- Check a cluster once. -/
  | check (clusterId : UInt64) (poolSize : Option UInt64) (mode : Option TrackingMode)
  /-- Check the clusters of the settings at their intervals. -/
  | run
  /-- Load an inventory from a file. -/
  | load (file : String)
  /-- Print the pending DNS tasks, and take them from the queue unless they are only to be seen. -/
  | dnsTasks (peek : Bool)
  /-- Print the settings in force. -/
  | config
  deriving DecidableEq, Repr, Inhabited

/-- A command and the options that every command takes. -/
structure Invocation where
  configFile : String := "edgewatch.toml"
  dataDir : Option String := none
  logJson : Bool := false
  command : Command
  deriving DecidableEq, Repr, Inhabited

/-- Why words are not a command line. -/
inductive UsageError where
  | missingCommand
  | unknownCommand (word : String)
  | unexpectedWord (word : String)
  | missingValue (option : String)
  | needlessValue (option : String)
  | repeatedOption (option : String)
  | invalidValue (option : String)
  | missingOption (option : String)
  deriving DecidableEq, Repr, Inhabited

/-- The wording of an error. -/
def UsageError.message : UsageError → String
  | .missingCommand => "no command given"
  | .unknownCommand word => s!"unrecognized command '{word}'"
  | .unexpectedWord word => s!"unexpected argument '{word}'"
  | .missingValue option => s!"a value is required for '--{option}'"
  | .needlessValue option => s!"no value may follow '--{option}'"
  | .repeatedOption option => s!"'--{option}' cannot be used twice"
  | .invalidValue option => s!"invalid value for '--{option}'"
  | .missingOption option => s!"'--{option}' is required"

/-! ## Options -/

/-- The options that may be given: switches, and settings with a value. -/
structure Vocabulary where
  switches : List String
  settings : List String

/-- The options that were given. -/
structure GivenOptions where
  switches : List String := []
  settings : List (String × String) := []

/-- Whether a word has the look of an option. -/
def isOptionLike (word : String) : Bool :=
  match word.toList with
  | '-' :: _ :: _ => true
  | _ => false

/-- The name of an option, without the hyphens, and the value in the same word. -/
def splitOption? (word : String) : Option (String × Option String) :=
  match word.toList with
  | '-' :: '-' :: cs =>
    let name := String.ofList (cs.takeWhile (· != '='))
    match cs.dropWhile (· != '=') with
    | _ :: value => some (name, some (String.ofList value))
    | [] => some (name, none)
  | _ => none

namespace GivenOptions

/-- The value of a setting. -/
def setting? (g : GivenOptions) (name : String) : Option String :=
  g.settings.lookup name

/-- Adds a switch. -/
def addSwitch (g : GivenOptions) (name : String) (value : Option String) :
    Except UsageError GivenOptions :=
  if value.isSome then .error (.needlessValue name)
  else if g.switches.contains name then .error (.repeatedOption name)
  else .ok { g with switches := name :: g.switches }

/-- Adds a setting. -/
def addSetting (g : GivenOptions) (name value : String) : Except UsageError GivenOptions :=
  if (g.setting? name).isSome then .error (.repeatedOption name)
  else .ok { g with settings := (name, value) :: g.settings }

/-- Reads options up to a word that is none: the options, and the words from there on. Two hyphens alone
end the options, after which no word may stand. -/
def read (v : Vocabulary) (g : GivenOptions) :
    List String → Except UsageError (GivenOptions × List String)
  | [] => .ok (g, [])
  | word :: rest =>
    if word = "--" then
      match rest with
      | [] => .ok (g, [])
      | extra :: _ => .error (.unexpectedWord extra)
    else if !isOptionLike word then .ok (g, word :: rest)
    else
      match splitOption? word with
      | none => .error (.unexpectedWord word)
      | some (name, value) =>
        if v.switches.contains name then do
          read v (← g.addSwitch name value) rest
        else if v.settings.contains name then
          match value with
          | some value => do read v (← g.addSetting name value) rest
          | none =>
            match rest with
            | [] => .error (.missingValue name)
            | value :: rest =>
              if isOptionLike value then .error (.missingValue name)
              else do read v (← g.addSetting name value) rest
        else .error (.unexpectedWord word)

/-- The value of a setting as a reader takes it, if the setting was given. -/
def valueOf {α : Type} (g : GivenOptions) (name : String) (reader : String → Option α) :
    Except UsageError (Option α) :=
  match g.setting? name with
  | none => .ok none
  | some text =>
    match reader text with
    | some a => .ok (some a)
    | none => .error (.invalidValue name)

/-- The value of a setting that must be given. -/
def required {α : Type} (g : GivenOptions) (name : String) (reader : String → Option α) :
    Except UsageError α := do
  match ← g.valueOf name reader with
  | some a => return a
  | none => .error (.missingOption name)

end GivenOptions

/-! ## Values -/

/-- Reads a path, which must not be empty. -/
def pathValue? (text : String) : Option String :=
  if text.isEmpty then none else some text

/-- Reads a number of 64 bits. -/
def numberValue? (text : String) : Option UInt64 :=
  (Text.unsigned? 18446744073709551615 text.toList).map UInt64.ofNat

/-- Reads a tracking mode. -/
def modeValue? (text : String) : Option TrackingMode :=
  TrackingMode.all.find? (·.name == text)

/-! ## Commands -/

namespace Invocation

/-- The options that every command takes. -/
def commonOptions : Vocabulary :=
  { switches := ["log-json"], settings := ["config", "data-dir"] }

/-- The options that a command takes, by its name. -/
def optionsOf? : String → Option Vocabulary
  | "check" => some { switches := [], settings := ["cluster", "pool-size", "tracking-mode"] }
  | "run" => some { switches := [], settings := [] }
  | "import" => some { switches := [], settings := ["file"] }
  | "dns-tasks" => some { switches := ["peek"], settings := [] }
  | "config" => some { switches := [], settings := [] }
  | _ => none

/-- The command of a name with its options. -/
def commandOf (name : String) (g : GivenOptions) : Except UsageError Command := do
  match name with
  | "check" =>
    return .check (← g.required "cluster" numberValue?) (← g.valueOf "pool-size" numberValue?)
      (← g.valueOf "tracking-mode" modeValue?)
  | "run" => return .run
  | "import" => return .load (← g.required "file" pathValue?)
  | "dns-tasks" => return .dnsTasks (g.switches.contains "peek")
  | "config" => return .config
  | _ => .error (.unknownCommand name)

/-- The invocation that words spell. -/
def parse (words : List String) : Except UsageError Invocation := do
  let (before, rest) ← GivenOptions.read commonOptions {} words
  let name :: rest := rest
    | .error .missingCommand
  let some own := optionsOf? name
    | .error (.unknownCommand name)
  let vocabulary : Vocabulary :=
    ⟨own.switches ++ commonOptions.switches, own.settings ++ commonOptions.settings⟩
  let (after, rest) ← GivenOptions.read vocabulary {} rest
  if let word :: _ := rest then .error (.unexpectedWord word)
  let common (option : String) : Except UsageError (Option String) := do
    let first ← before.valueOf option pathValue?
    let second ← after.valueOf option pathValue?
    return second.or first
  let command ← commandOf name after
  return {
    configFile := (← common "config").getD "edgewatch.toml"
    dataDir := ← common "data-dir"
    logJson := before.switches.contains "log-json" || after.switches.contains "log-json"
    command }

end Invocation

end FleetHealth
