import ValidatorGen.Artifact.ImportList
import ValidatorGen.Target.Vocabulary
import ValidatorGen.Text.Layout
import ValidatorGen.Validator.Field

/-!
The declaration of one definition. Scalars have none, and objects only where the settings ask for
them.
-/
namespace ValidatorGen

structure Emission where
  /-- The identifier of the validator. -/
  name : String
  /-- The source text of the declaration. -/
  text : String
  imports : ImportList

/-- A labelled validator inside an object validator. -/
def entry (label validator : String) : String :=
  label ++ ": " ++ validator

namespace Environment

def fieldEntry (env : Environment) (field : Field) : Logged String := do
  pure (entry field.name (← env.fieldExpr field))

/-- An object validator with its entries on lines of their own. -/
def objectText (env : Environment) (entries : List String) : String :=
  let lines := if entries.isEmpty then "" else Text.indent 1 (",\n".intercalate entries) ++ "\n"
  env.vocabulary.objectStart ++ "\n" ++ lines ++ "\x7d)"

/-- The declaration of an object validator in the configured form. -/
def declareObject (env : Environment) (name : String) (entries : List String) : Declaration :=
  let annotation := env.vocabulary.objectType (env.names.typeName name)
  let object := env.objectText entries
  match env.settings.objectForm with
  | .const =>
    { exported := true
      kind := .const
      head := env.names.validatorName name ++ ": " ++ annotation
      body := object }
  | .function =>
    { exported := true
      kind := .function
      head := env.names.validatorName name ++ "(): " ++ annotation
      body := Text.indent 1 ("return " ++ object) }

def declareEnum (env : Environment) (name : String) (values : List String) : Declaration :=
  { exported := true
    kind := .const
    head := env.names.validatorName name
    body :=
      if env.settings.enumsAsTypes then env.vocabulary.oneOf values
      else env.vocabulary.memberOf (env.names.typeName name) }

/-- The entry by which an object names its own type. -/
def typenameEntry (env : Environment) (name : String) : String :=
  entry "__typename" (env.vocabulary.typenameTag name)

def declaration? (env : Environment) (d : Definition) : Logged (Option Declaration) :=
  match d.body with
  | .enumeration values => pure (some (env.declareEnum d.name values))
  | .inputObject fields => do
    pure (some (env.declareObject d.name (← fields.mapM env.fieldEntry)))
  | .object fields =>
    if env.settings.emitObjects then do
      let entries ← fields.mapM env.fieldEntry
      pure (some (env.declareObject d.name (env.typenameEntry d.name :: entries)))
    else pure none
  | .scalar => pure none

def emission? (env : Environment) (d : Definition) : Logged (Option Emission) := do
  match ← env.declaration? d with
  | none => pure none
  | some declaration => do
    Logged.note (.emitted d.name (env.names.validatorName d.name) env.vocabulary.name)
    pure (some
      { name := env.names.validatorName d.name
        text := declaration.render
        imports := .ofList [env.names.typeName d.name] })

end Environment

end ValidatorGen
