import ValidatorGen.Validator.Constraint
import ValidatorGen.Validator.Reference

/-!
Validators of fields. The type reference is walked from the outside, and the modifier directly
around each level decides whether null and absence are allowed there. The constraints of a field
go to its outermost list, and to its named type where that is non-null or in no list.
-/
namespace ValidatorGen

/-- What directly encloses a level of a type reference. -/
inductive Surrounding
  | none
  | list
  | nonNull
  deriving DecidableEq, Repr

namespace Environment

/-- Puts the constraints of directives on an expression. -/
def constrained (env : Environment) (directives : List Directive) (expr : String) :
    Logged String := do
  pure (env.vocabulary.constrain expr (← Constraint.calls env.settings.directives directives))

/-- The call that refuses the empty string, where the settings ask for it. -/
def emptyStringCalls (env : Environment) (reference : Reference) : List Call :=
  if env.settings.rejectEmptyStrings && reference.primitive == some .string then
    [env.vocabulary.minLength 1]
  else []

/-- A reference under the modifier around it. Items of a list carry no constraints of the field
unless they are non-null. -/
def referenceExpr (env : Environment) (field : Field) (reference : Reference) :
    Surrounding → Logged String
  | .list => pure (env.vocabulary.nullable reference.expr)
  | .nonNull => do
    let calls ← Constraint.calls env.settings.directives field.directives
    pure (env.vocabulary.constrain reference.expr (calls ++ env.emptyStringCalls reference))
  | .none => do
    pure (env.vocabulary.nullish (← env.constrained field.directives reference.expr))

def namedExpr (env : Environment) (field : Field) (around : Surrounding) (name : String) :
    Logged String := do
  let reference ← env.reference name
  let expr ← env.referenceExpr field reference around
  pure (if reference.isDeferred then env.vocabulary.deferred expr else expr)

/-- The validator of a type reference; `inList` holds below the outermost list. -/
def walk (env : Environment) (field : Field) (around : Surrounding) (inList : Bool) :
    TypeRef → Logged String
  | .named name => env.namedExpr field around name
  | .list element => do
    let array := env.vocabulary.listOf (← env.walk field .list true element)
    let constrained ← if inList then pure array else env.constrained field.directives array
    pure (if around = .nonNull then constrained else env.vocabulary.nullish constrained)
  | .nonNull (.nonNull inner) => do
    Logged.note (.unhandledType field.name (TypeRef.nonNull (.nonNull inner)).text)
    pure ""
  | .nonNull inner => env.walk field .nonNull inList inner

/-- The validator of a type reference on its own, for a field and what is taken to enclose it. -/
def levelExpr (env : Environment) (field : Field) (around : Surrounding) (type : TypeRef) :
    Logged String :=
  env.walk field around (around == .list) type

/-- The whole validator of a field. -/
def fieldExpr (env : Environment) (field : Field) : Logged String :=
  env.levelExpr field .none field.type

end Environment

end ValidatorGen
