import ValidatorGen.Toml.Value

/-!
Whole TOML documents: assignments and headers line by line, gathered into sections, and the
sections put into one table in their order.
-/
namespace ValidatorGen.Toml

open Scan

inductive Header
  | table (path : List String) (key : String)
  | item (path : List String) (key : String)

inductive Statement
  | header (h : Header)
  | assign (a : Assignment)

/-- A header with the assignments below it. -/
structure Section where
  header : Header
  assignments : List Assignment

def header : Scan Header := do
  expect '['
  if ← accept '[' then
    let (path, key) ← dottedKey
    expectAll "]]"
    pure (.item path key)
  else
    let (path, key) ← dottedKey
    expect ']'
    pure (.table path key)

def statement : Scan Statement := do
  let found ← (.header <$> header) <|> (.assign <$> assignment (value (nestingLimit - 1)))
  lineTail
  pure found

/-- The statements up to the end of the text; `fuel` bounds their number. -/
def statements : (fuel : Nat) → Scan (List Statement)
  | 0 => failure
  | fuel + 1 => do
    gap
    if (← rest).isEmpty then pure []
    else
      let first ← statement
      let more ← statements fuel
      pure (first :: more)

/-- The assignments before the first header, and the sections. -/
def gather : List Statement → List Assignment × List Section
  | [] => ([], [])
  | .assign a :: rest =>
    let (assignments, sections) := gather rest
    (a :: assignments, sections)
  | .header h :: rest =>
    let (assignments, sections) := gather rest
    ([], ⟨h, assignments⟩ :: sections)

def Section.addTo (s : Section) (root : Entries) : Option Entries :=
  let fill := Entries.assignAll s.assignments
  match s.header with
  | .table path key => root.changeAt (Entries.openTable key fill) path
  | .item path key => root.changeAt (Entries.appendTable key fill) path

def assemble (found : List Statement) : Option Entries := do
  let (assignments, sections) := gather found
  let root ← Entries.assignAll assignments []
  sections.foldlM (fun entries s => s.addTo entries) root

/-- A byte order mark at the very front is passed over. -/
def withoutMark : List Char → List Char
  | '\uFEFF' :: rest => rest
  | cs => cs

/-- The configuration tree of a document. -/
def read? (text : String) : Option Setting := do
  let cs := withoutMark text.toList
  let (found, _) ← statements (cs.length + 1) cs
  some (.table (settingEntries (← assemble found)))

end ValidatorGen.Toml
