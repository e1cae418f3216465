/-!
Settings of a generation pass.
-/
namespace ValidatorGen

/-- How object validators are declared: built on every call, or once when the module loads. -/
inductive ObjectForm
  | function
  | const
  deriving DecidableEq, Repr

namespace ObjectForm

def name : ObjectForm → String
  | function => "function"
  | const => "const"

def ofName? (name : String) : Option ObjectForm :=
  [function, const].find? (·.name == name)

@[simp] theorem ofName?_name (form : ObjectForm) : ofName? form.name = some form := by
  cases form <;> decide

end ObjectForm

/-- Entries by name, each name once. -/
abbrev Table (α : Type) := List (String × α)

theorem Table.mem_of_lookup_eq_some {α : Type} {table : Table α} {name : String} {entry : α}
    (h : table.lookup name = some entry) : (name, entry) ∈ table := by
  obtain ⟨before, after, rfl, -⟩ := List.lookup_eq_some_iff.mp h
  simp

/-- What one value of a directive argument calls. -/
inductive ChoiceRule
  | method (name : String)
  | call (parts : List String)
  deriving DecidableEq, Repr

/-- What a directive argument calls: a method on its value, a method with argument templates, or
a choice by value. -/
inductive ArgumentRule
  | method (name : String)
  | call (parts : List String)
  | byValue (choices : Table ChoiceRule)
  deriving DecidableEq, Repr

/-- Mappings by directive name, then by argument name. -/
abbrev DirectiveTable := Table (Table ArgumentRule)

structure Settings where
  backend : String := "zod"
  objectForm : ObjectForm := .function
  /-- Check enumerations against their value names, not against the native type. -/
  enumsAsTypes : Bool := false
  /-- Names of target types by scalar. -/
  scalars : Table String := []
  /-- Validator expressions by scalar, written as they are. -/
  scalarSchemas : Table String := []
  directives : DirectiveTable := []
  /-- Refuse the empty string for non-null strings. -/
  rejectEmptyStrings : Bool := false
  /-- The module that the generated types come from. -/
  importFrom : Option String := none
  /-- Emit validators for object types too. -/
  emitObjects : Bool := true
  typesPrefix : String := ""
  typesSuffix : String := ""
  deriving DecidableEq, Repr

end ValidatorGen
