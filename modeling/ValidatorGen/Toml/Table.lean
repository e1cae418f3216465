import ValidatorGen.Settings.Setting

/-!
Tables under construction. A table remembers what brought it about, because that decides how it may
be extended: a dotted key extends what dotted keys or the paths of headers made, and a header may
name a table of its own once.
-/
namespace ValidatorGen.Toml

/-- What brought a table about: its own header, the path of a longer header, or a dotted key. -/
inductive Origin
  | header
  | path
  | dottedKey
  deriving DecidableEq, Repr

inductive Node
  | leaf (value : Setting)
  | table (origin : Origin) (entries : List (String × Node))
  | tables (items : List (List (String × Node)))

abbrev Entries := List (String × Node)

namespace Entries

def replace (key : String) (node : Node) : Entries → Entries
  | [] => [(key, node)]
  | (k, n) :: rest => if k = key then (k, node) :: rest else (k, n) :: replace key node rest

def add (key : String) (node : Node) (entries : Entries) : Option Entries :=
  match entries.lookup key with
  | none => some (entries ++ [(key, node)])
  | some _ => none

/-- Puts a value under a dotted key. `below` says that a step of the key has been taken, and then
the table reached must be one that dotted keys made. -/
def assign (below : Bool) (origin : Origin) (key : String) (value : Setting) :
    List String → Entries → Option Entries
  | [], entries =>
    if (origin == .dottedKey) == below then entries.add key (.leaf value) else none
  | step :: path, entries =>
    match entries.lookup step with
    | none => do
      let sub ← assign true .dottedKey key value path []
      some (entries ++ [(step, .table .dottedKey sub)])
    | some (.leaf _) => none
    | some (.table .header _) => none
    | some (.table made sub) => do
      some (entries.replace step (.table made (← assign true made key value path sub)))
    | some (.tables items) => do
      let last ← items.getLast?
      let changed ← assign true .header key value path last
      some (entries.replace step (.tables (items.dropLast ++ [changed])))

/-- Changes the table that the path of a header leads to; the last one of a list of tables. -/
def changeAt (change : Entries → Option Entries) : List String → Entries → Option Entries
  | [], entries => change entries
  | step :: path, entries =>
    match entries.lookup step with
    | none => do some (entries ++ [(step, .table .path (← changeAt change path []))])
    | some (.leaf _) => none
    | some (.table made sub) => do
      some (entries.replace step (.table made (← changeAt change path sub)))
    | some (.tables items) => do
      let changed ← changeAt change path (← items.getLast?)
      some (entries.replace step (.tables (items.dropLast ++ [changed])))

/-- The table of a header is new, or was made by the path of an earlier header. -/
def openTable (key : String) (fill : Entries → Option Entries) (entries : Entries) :
    Option Entries :=
  match entries.lookup key with
  | none => do some (entries ++ [(key, .table .header (← fill []))])
  | some (.table .path sub) => do some (entries.replace key (.table .header (← fill sub)))
  | some _ => none

/-- A further table at the end of a list of tables. -/
def appendTable (key : String) (fill : Entries → Option Entries) (entries : Entries) :
    Option Entries :=
  match entries.lookup key with
  | none => do some (entries ++ [(key, .tables [← fill []])])
  | some (.tables items) => do
    some (entries.replace key (.tables (items ++ [← fill []])))
  | some _ => none

end Entries

/-- A value under a key with a path. -/
structure Assignment where
  path : List String
  key : String
  value : Setting

/-- The entries after assignments to one table. -/
def Entries.assignAll (assignments : List Assignment) (entries : Entries) : Option Entries :=
  assignments.foldlM (fun now a => now.assign false .header a.key a.value a.path) entries

mutual

def Node.toSetting : Node → Setting
  | .leaf value => value
  | .table _ entries => .table (settingEntries entries)
  | .tables items => .list (settingTables items)

def settingEntries : Entries → List (String × Setting)
  | [] => []
  | (key, node) :: rest => (key, node.toSetting) :: settingEntries rest

def settingTables : List Entries → List Setting
  | [] => []
  | entries :: rest => .table (settingEntries entries) :: settingTables rest

end

end ValidatorGen.Toml
