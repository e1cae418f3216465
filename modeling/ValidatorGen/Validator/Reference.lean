import ValidatorGen.Schema.Index
import ValidatorGen.Settings.Basic
import ValidatorGen.Target.Vocabulary
import ValidatorGen.Text.Uppercase
import ValidatorGen.Validator.Event

/-!
What a generation pass reads, and the validators of named types. A name refers to its definition; a
name that the schema does not define is treated as a scalar. The identifiers of generated code are
made from the names of definitions.
-/
namespace ValidatorGen

/-- The identifiers of a definition's type and of its validator, from its raw name. -/
structure NamingScheme where
  typeName : String → String
  validatorName : String → String := fun raw => typeName raw ++ "Schema"

/-- Capitalizes and puts the configured texts around. -/
def NamingScheme.standard (typesPrefix typesSuffix : String) : NamingScheme where
  typeName raw := typesPrefix ++ Text.capitalize raw ++ typesSuffix

def NamingScheme.ofSettings (settings : Settings) : NamingScheme :=
  .standard settings.typesPrefix settings.typesSuffix

@[simp] theorem NamingScheme.typeName_standard (before after raw : String) :
    (standard before after).typeName raw = before ++ Text.capitalize raw ++ after := rfl

/-- What every step of a generation pass reads. -/
structure Environment where
  index : Index
  settings : Settings
  vocabulary : Vocabulary
  names : NamingScheme

def builtinPrimitives : Table Primitive :=
  [("ID", .string), ("String", .string), ("Int", .number), ("Float", .number),
   ("Boolean", .boolean)]

/-- The primitive kind of a scalar. An entry in the settings hides the built-in kind, also when it
names no primitive. -/
def Settings.primitive? (settings : Settings) (scalar : String) : Option Primitive :=
  match settings.scalars.lookup scalar with
  | some typeName => Primitive.ofTypeName? typeName
  | none => builtinPrimitives.lookup scalar

structure Reference where
  /-- The kind of the definition; scalar also for a name without one. -/
  kind : Kind
  expr : String
  primitive : Option Primitive
  deriving DecidableEq, Repr

/-- Input objects may contain themselves, so a use of one is deferred. -/
def Reference.isDeferred (r : Reference) : Bool :=
  r.kind == .inputObject

namespace Environment

def kindOf (env : Environment) (name : String) : Kind :=
  (env.index.kindOf? name).getD .scalar

/-- The validator of a scalar: the one in the settings, that of its primitive kind, or else one for
all defined values. -/
def scalarExpr (env : Environment) (name : String) : Logged String :=
  match env.settings.scalarSchemas.lookup name with
  | some expr => pure expr
  | none =>
    match env.settings.primitive? name with
    | some primitive => pure (env.vocabulary.primitive primitive)
    | none => do
      Logged.note (.unhandledScalar name env.vocabulary.name)
      pure env.vocabulary.anyDefined

/-- The validator that an object or input object is used by. -/
def objectReference (env : Environment) (name : String) : String :=
  match env.settings.objectForm with
  | .const => env.names.validatorName name
  | .function => env.names.validatorName name ++ "()"

def reference (env : Environment) (name : String) : Logged Reference :=
  match env.kindOf name with
  | .enumeration => pure ⟨.enumeration, env.names.validatorName name, none⟩
  | .inputObject => pure ⟨.inputObject, env.objectReference name, none⟩
  | .object => pure ⟨.object, env.objectReference name, none⟩
  | .scalar => do
    let expr ← env.scalarExpr name
    pure ⟨.scalar, expr, env.settings.primitive? name⟩

@[simp] theorem kind_reference (env : Environment) (name : String) :
    (env.reference name).value.kind = env.kindOf name := by
  unfold reference
  cases env.kindOf name <;> rfl

end Environment

end ValidatorGen
