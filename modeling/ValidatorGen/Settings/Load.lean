import ValidatorGen.Settings.Basic
import ValidatorGen.Settings.Setting
import ValidatorGen.Toml.Document

/-!
Settings from a configuration tree, from TOML text and from the content of a file. A tree is read key
by key: a key that is left out keeps its default, a key of the wrong type rejects the whole tree, and
unknown keys are passed over.
-/
namespace ValidatorGen

/-- The notation that a tree was written in. -/
inductive Dialect
  | toml
  | json
  deriving DecidableEq, Repr

/-- What stands for the absent content of a plain name that is written as the key of a table. -/
def Dialect.isVoid : Dialect → Setting → Bool
  | toml, .list [] => true
  | toml, .table [] => true
  | json, .null => true
  | _, _ => false

def ObjectForm.ofSetting? (dialect : Dialect) : Setting → Option ObjectForm
  | .text name => ofName? name
  | .table [(name, content)] => if dialect.isVoid content then ofName? name else none
  | _ => none

def Setting.texts? (s : Setting) : Option (List String) := do
  (← s.items?).mapM Setting.text?

/-- A table whose entries are all read in the same way. -/
def Table.ofSetting? {α : Type} (read : Setting → Option α) (s : Setting) : Option (Table α) := do
  (← s.entries?).mapM fun (key, value) => (read value).map (key, ·)

def ChoiceRule.ofSetting? : Setting → Option ChoiceRule
  | .text name => some (.method name)
  | .list items => (Setting.list items).texts?.map .call
  | _ => none

def ArgumentRule.ofSetting? : Setting → Option ArgumentRule
  | .text name => some (.method name)
  | .list items => (Setting.list items).texts?.map .call
  | .table entries => (Table.ofSetting? ChoiceRule.ofSetting? (.table entries)).map .byValue
  | _ => none

def DirectiveTable.ofSetting? : Setting → Option DirectiveTable :=
  Table.ofSetting? (Table.ofSetting? ArgumentRule.ofSetting?)

/-- A null counts as no text. -/
def Setting.optionalText? : Setting → Option (Option String)
  | .null => some none
  | .text s => some (some s)
  | _ => none

/-- The value of a key of a table, or the default where the key is left out. -/
def Setting.key? {α : Type} (tree : Setting) (key : String) (default : α)
    (read : Setting → Option α) : Option α := do
  match (← tree.entries?).lookup key with
  | none => some default
  | some s => read s

def Settings.ofSetting? (dialect : Dialect) (tree : Setting) : Option Settings := do
  let base : Settings := {}
  some {
    backend := ← tree.key? "schema" base.backend Setting.text?
    objectForm := ← tree.key? "export_type" base.objectForm (ObjectForm.ofSetting? dialect)
    enumsAsTypes := ← tree.key? "enums_as_types" base.enumsAsTypes Setting.flag?
    scalars := ← tree.key? "scalars" base.scalars (Table.ofSetting? Setting.text?)
    scalarSchemas :=
      ← tree.key? "scalar_schemas" base.scalarSchemas (Table.ofSetting? Setting.text?)
    directives := ← tree.key? "directives" base.directives DirectiveTable.ofSetting?
    rejectEmptyStrings :=
      ← tree.key? "not_allow_empty_string" base.rejectEmptyStrings Setting.flag?
    importFrom := ← tree.key? "import_from" base.importFrom Setting.optionalText?
    emitObjects := ← tree.key? "with_object_type" base.emitObjects Setting.flag?
    typesPrefix := ← tree.key? "types_prefix" base.typesPrefix Setting.text?
    typesSuffix := ← tree.key? "types_suffix" base.typesSuffix Setting.text? }

def Settings.ofJson? (value : Json.Value) : Option Settings :=
  Settings.ofSetting? .json (Setting.ofJson value)

inductive LoadError
  /-- There is no file, or it is not UTF-8 text. -/
  | unreadable
  /-- The text is no TOML, or no settings. -/
  | malformed
  deriving DecidableEq, Repr

def Settings.ofToml? (text : String) : Option Settings := do
  Settings.ofSetting? .toml (← Toml.read? text)

/-- Settings from the bytes of a file, if there is one. -/
def Settings.load (content : Option ByteArray) : Except LoadError Settings :=
  match content.bind String.fromUTF8? with
  | none => .error .unreadable
  | some text =>
    match Settings.ofToml? text with
    | none => .error .malformed
    | some settings => .ok settings

end ValidatorGen
