import FleetHealth.Disk.Path
import FleetHealth.Store.Basic
/-!
# A disk

A disk is a tree of directories. A path is followed name by name, and each step but the first starts in a
directory that the step before has found, so `a/..` leads nowhere if there is no `a`. What an operation
made before it failed stays on the disk.
-/

namespace FleetHealth

/-- What lies at a place of a disk. -/
inductive DiskEntry where
  | file (content : String)
  | database (s : Store)
  | directory (entries : List (String × DiskEntry))
  deriving Inhabited

/-! ## Places -/

/-- A place of a disk. -/
structure DiskPlace where
  /-- What lies there. -/
  entry : DiskEntry
  /-- The directories that it lies in, from the nearest to the root, with the names that lead on from
  them. -/
  above : List (String × List (String × DiskEntry)) := []
  deriving Inhabited

namespace DiskPlace

/-- A directory with an entry under a name. -/
def enter (name : String) (e : DiskEntry) (entries : List (String × DiskEntry)) : DiskEntry :=
  .directory ((name, e) :: entries.filter (·.1 != name))

/-- The directory that a place lies in; above the root is the root. -/
def up (p : DiskPlace) : DiskPlace :=
  match p.above with
  | [] => p
  | (name, entries) :: above => ⟨enter name p.entry entries, above⟩

/-- What lies at the root above a place. -/
def root (p : DiskPlace) : DiskEntry :=
  p.above.foldl (fun e crumb => enter crumb.1 e crumb.2) p.entry

/-- Where a name leads. -/
def follow (p : DiskPlace) (name : String) : Except DiskFault DiskPlace :=
  match p.entry with
  | .directory entries =>
    if name = "." then .ok p
    else if name = ".." then .ok p.up
    else if DiskPath.mostNameBytes < name.utf8ByteSize then .error .tooLong
    else
      match entries.lookup name with
      | some e => .ok ⟨e, (name, entries) :: p.above⟩
      | none => .error .missing
  | _ => .error .notDirectory

/-- The place with an entry under a name, if there is a directory. -/
def put (p : DiskPlace) (name : String) (e : DiskEntry) : DiskPlace :=
  match p.entry with
  | .directory entries => { p with entry := enter name e entries }
  | _ => p

end DiskPlace

/-! ## Disks -/

/-- Everything on a disk. -/
structure Disk where
  root : DiskEntry
  deriving Inhabited

namespace Disk

/-- The names that lead from the root to the working directory. The last cannot be written in a path. -/
def workingDirectory : List String := ["tmp", ""]

/-- A disk with an empty working directory. -/
def blank : Disk where
  root := .directory
    [("dev", .directory [("null", .file "")]), ("etc", .directory []), ("home", .directory []),
      ("tmp", .directory [("", .directory [])]), ("usr", .directory []), ("var", .directory [])]

/-- Where a path leads. -/
def locate (d : Disk) (p : DiskPath) : Except DiskFault DiskPlace :=
  ((if p.rooted then [] else workingDirectory) ++ p.names ++ (if p.closed then ["."] else [])).foldlM
    DiskPlace.follow ⟨d.root, []⟩

/-- Whether a path leads to a directory. -/
def isDirectory (d : Disk) (p : DiskPath) : Bool :=
  match d.locate p with
  | .ok ⟨.directory _, _⟩ => true
  | _ => false

/-- The disk with an entry at a path. -/
def put (d : Disk) (p : DiskPath) (e : DiskEntry) : Except DiskFault Disk := do
  let some (parent, name) := p.parent?
    | .error .directory
  return { root := ((← d.locate parent).put name e).root }

/-- The disk with a new directory at a path, under whose last name there must be nothing. -/
def makeDirectory (d : Disk) (p : DiskPath) : Except DiskFault Disk := do
  let some (parent, name) := p.parent?
    | .error .present
  let place ← d.locate parent
  match place.follow name with
  | .ok _ => .error .present
  | .error .missing => .ok { root := (place.put name (.directory [])).root }
  | .error fault => .error fault

/-- What is done on a disk and may fail in the middle. -/
abbrev Action := ExceptT DiskFault (StateM Disk)

/-- Makes a directory unless it is there. -/
def ensureDirectory (p : DiskPath) : Action Unit := do
  let d ← get
  match d.makeDirectory p with
  | .ok d => set d
  | .error fault => unless d.isDirectory p do throw fault

/-- Makes a directory unless it is there, where something missing is made first in a given way. -/
def ensureDirectoryAfter (first : Action Unit) (p : DiskPath) : Action Unit :=
  tryCatch (ensureDirectory p) fun fault => do
    if fault = .missing then
      first
      ensureDirectory p
    else throw fault

/-- Makes the directories on a path, up to as many names. -/
def ensureAbove (p : DiskPath) : Nat → Action Unit
  | 0 => return
  | n + 1 => ensureDirectoryAfter (ensureAbove p n) (p.above (n + 1))

/-- Makes the directory at a path and those on the way to it, unless they are there. -/
def ensureDirectories (p : DiskPath) : Action Unit :=
  ensureDirectoryAfter (ensureAbove p p.depth) p

/-- Puts an entry at a path. -/
def place (p : DiskPath) (e : DiskEntry) : Action Unit := do
  match (← get).put p e with
  | .ok d => set d
  | .error fault => throw fault

/-- Opens the database at a path. One is made if there is nothing yet, or an empty file. -/
def openDatabase (p : DiskPath) : Action Store := do
  match (← get).locate p with
  | .ok ⟨.database s, _⟩ => return s
  | .ok ⟨.file content, _⟩ => if content.isEmpty then create else throw .invalidData
  | .ok ⟨.directory _, _⟩ => throw .directory
  | .error .missing => create
  | .error fault => throw fault
where
  /-- Makes an empty database. -/
  create : Action Store := do
    place p (.database {})
    return {}

/-- The disk with another file in the working directory, or in directories below it. -/
def addFile (d : Disk) (path content : String) : Disk :=
  match DiskPath.parse path with
  | .ok p => ((ensureAbove p p.depth *> place p (.file content)).run.run d).2
  | .error _ => d

/-- A disk with files in the working directory. -/
def ofFiles (files : List (String × String)) : Disk :=
  files.foldl (fun d f => d.addFile f.1 f.2) blank

end Disk

end FleetHealth
