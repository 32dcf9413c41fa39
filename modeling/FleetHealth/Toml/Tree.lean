import FleetHealth.Toml.Basic
/-!
# From statements to a table

A document is built up statement by statement. What may be added to a table depends on how the table
came about, so that no table is defined twice.
-/

namespace FleetHealth.Toml

/-- How a table came about. -/
inductive Origin where
  /-- By a header of its own, or as the document itself. -/
  | defined
  /-- As a table on the path of a header. -/
  | implied
  /-- By a name with dots. -/
  | dotted
  deriving DecidableEq, Repr

/-- What a name in a table under construction stands for. -/
inductive Item where
  | value (v : Value)
  | table (origin : Origin) (entries : List (String × Item))
  /-- The tables of an array, each with its own header. -/
  | tables (elements : List (List (String × Item)))
  deriving Inhabited

/-- The names in a table and what they stand for. -/
abbrev Entries := List (String × Item)

/-- The entries with another item for a name that is among them. -/
def replaceEntry (entries : Entries) (name : String) (item : Item) : Entries :=
  entries.map fun e => if e.1 == name then (name, item) else e

/-- Walks along a path and changes the entries of the table at its end, given how that table came about.
Tables that are missing on the way are made; an array of tables stands for its last table. With
`byDots` the path is a name with dots, which leads into no table with a header of its own. -/
def walk (byDots : Bool) (change : Origin → Entries → Option Entries) :
    List String → Origin → Entries → Option Entries
  | [], origin, entries => change origin entries
  | name :: path, _, entries =>
    match entries.lookup name with
    | none => do
      let origin := if byDots then .dotted else .implied
      let inner ← walk byDots change path origin []
      some (entries ++ [(name, .table origin inner)])
    | some (.value _) => none
    | some (.table origin inner) =>
      if byDots && origin == .defined then none
      else do
        let inner ← walk byDots change path origin inner
        some (replaceEntry entries name (.table origin inner))
    | some (.tables elements) => do
      let last ← elements.getLast?
      let last ← walk byDots change path .defined last
      some (replaceEntry entries name (.tables (elements.dropLast ++ [last])))

/-- Gives a name in a table a value. A name with dots only adds to tables that such names made. -/
def assign (path : List String) (value : Value) (entries : Entries) : Option Entries := do
  let name ← path.getLast?
  let parents := path.dropLast
  walk true (fun origin inner =>
    if (origin == .dotted) == parents.isEmpty then none
    else if (inner.lookup name).isSome then none
    else some (inner ++ [(name, .value value)])) parents .defined entries

/-- Opens the table at a path: a new one, or one that was only implied so far. -/
def openTable (path : List String) (entries : Entries) : Option Entries := do
  let name ← path.getLast?
  walk false (fun _ inner =>
    match inner.lookup name with
    | none => some (inner ++ [(name, .table .defined [])])
    | some (.table .implied content) => some (replaceEntry inner name (.table .defined content))
    | some _ => none) path.dropLast .defined entries

/-- Adds a table to the array of tables at a path. -/
def openElement (path : List String) (entries : Entries) : Option Entries := do
  let name ← path.getLast?
  walk false (fun _ inner =>
    match inner.lookup name with
    | none => some (inner ++ [(name, .tables [[]])])
    | some (.tables elements) => some (replaceEntry inner name (.tables (elements ++ [[]])))
    | some _ => none) path.dropLast .defined entries

/-- A document under construction: the path of the table that assignments go to, and the entries. -/
structure Draft where
  current : List String
  entries : Entries

/-- The document after one more statement. -/
def Draft.add (d : Draft) : Statement → Option Draft
  | .header path => (openTable path d.entries).map fun entries => ⟨path, entries⟩
  | .arrayHeader path => (openElement path d.entries).map fun entries => ⟨path, entries⟩
  | .assign path value =>
    (walk false (fun _ inner => assign path value inner) d.current .defined d.entries).map
      fun entries => ⟨d.current, entries⟩

mutual

/-- The value of a finished item. -/
def Item.toValue : Item → Value
  | .value v => v
  | .table _ entries => .table (entriesToValues entries)
  | .tables elements => .arr (elementsToValues elements)

/-- The values of finished entries. -/
def entriesToValues : List (String × Item) → List (String × Value)
  | [] => []
  | (name, item) :: rest => (name, item.toValue) :: entriesToValues rest

/-- The tables of a finished array. -/
def elementsToValues : List (List (String × Item)) → List Value
  | [] => []
  | entries :: rest => .table (entriesToValues entries) :: elementsToValues rest

end

/-- The table that a sequence of statements describes. -/
def ofStatements? (statements : List Statement) : Option Value := do
  let d ← statements.foldlM Draft.add ⟨[], []⟩
  some (.table (entriesToValues d.entries))

/-- The inline table with the given assignments. -/
def inlineTable? (assignments : List (List String × Value)) : Option Value := do
  let entries ← assignments.foldlM (fun entries a => assign a.1 a.2 entries) []
  some (.table (entriesToValues entries))

end FleetHealth.Toml
