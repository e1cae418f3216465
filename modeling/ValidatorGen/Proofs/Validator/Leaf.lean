import ValidatorGen.Proofs.Validator.Layers

/-! The base name inside a type reference. A walk meets the base name at most once, under the
modifier directly around it, and encloses its validator in a way that does not depend on it. -/
namespace ValidatorGen

/-- What directly encloses the base name. A doubled modifier on the way hides it. -/
def TypeRef.leafSurrounding? (around : Surrounding) : TypeRef → Option Surrounding
  | .named _ => some around
  | .list element => element.leafSurrounding? .list
  | .nonNull (.nonNull _) => none
  | .nonNull inner => inner.leafSurrounding? .nonNull

namespace Environment

open Logged

/-- The validator of a type reference, given that of its base name. -/
def enclose (env : Environment) (field : Field) (leaf : String) (around : Surrounding)
    (inList : Bool) : TypeRef → String
  | .named _ => leaf
  | .list element =>
    let array := env.vocabulary.listOf (env.enclose field leaf .list true element)
    let constrained :=
      if inList then array else env.vocabulary.constrain array (env.fieldCalls field)
    if around = .nonNull then constrained else env.vocabulary.nullish constrained
  | .nonNull (.nonNull _) => ""
  | .nonNull inner => env.enclose field leaf .nonNull inList inner

variable (env : Environment) (field : Field)

theorem value_walk_of_leaf {t : TypeRef} (around : Surrounding) {leafAround : Surrounding}
    (h : t.leafSurrounding? around = some leafAround) (inList : Bool) :
    (env.walk field around inList t).value =
      env.enclose field (env.namedExpr field leafAround t.baseName).value around inList t := by
  induction t generalizing around inList with
  | named name =>
    obtain rfl : around = leafAround := by simpa [TypeRef.leafSurrounding?] using h
    rfl
  | list element ih =>
    have helement := ih .list h true
    cases inList <;> cases around <;>
      simp [walk, enclose, helement, constrained, fieldCalls]
  | nonNull inner ih =>
    cases inner with
    | nonNull inner => cases h
    | named name => exact ih .nonNull h inList
    | list element => exact ih .nonNull h inList

/-- Where the base name is hidden, any text may stand for its validator. -/
theorem value_walk_of_hidden {t : TypeRef} (around : Surrounding)
    (h : t.leafSurrounding? around = none) (inList : Bool) (leaf : String) :
    (env.walk field around inList t).value = env.enclose field leaf around inList t := by
  induction t generalizing around inList with
  | named name => cases h
  | list element ih =>
    have helement := ih .list h true
    cases inList <;> cases around <;>
      simp [walk, enclose, helement, constrained, fieldCalls]
  | nonNull inner ih =>
    cases inner with
    | nonNull inner => rfl
    | named name => cases h
    | list element => exact ih .nonNull h inList

theorem enclose_congr (env' : Environment) (hvocabulary : env.vocabulary = env'.vocabulary)
    (hcalls : env.fieldCalls field = env'.fieldCalls field) (leaf : String) (around : Surrounding)
    (inList : Bool) (t : TypeRef) :
    env.enclose field leaf around inList t = env'.enclose field leaf around inList t := by
  induction t generalizing around inList with
  | named name => rfl
  | list element ih => simp only [enclose, ih, hvocabulary, hcalls]
  | nonNull inner ih =>
    cases inner with
    | nonNull inner => rfl
    | named name => rfl
    | list element => exact ih .nonNull inList

/-- Only scalars have a primitive kind, and their uses are not deferred. -/
theorem isDeferred_of_primitive {name : String} {primitive : Primitive}
    (h : (env.reference name).value.primitive = some primitive) :
    (env.reference name).value.isDeferred = false := by
  rw [reference] at h ⊢
  cases hkind : env.kindOf name <;> rw [hkind] at h
  · cases h
  · cases h
  · cases h
  · rfl

theorem value_namedExpr_string {name : String}
    (h : (env.reference name).value.primitive = some .string) :
    (env.namedExpr field .nonNull name).value =
      env.vocabulary.constrain (env.reference name).value.expr
        (env.fieldCalls field ++
          if env.settings.rejectEmptyStrings then [env.vocabulary.minLength 1] else []) := by
  simp [namedExpr, referenceExpr, emptyStringCalls, h, env.isDeferred_of_primitive h, fieldCalls]

/-- The base name of the field is a scalar of strings, directly under a non-null modifier. -/
def HasStringLeaf (field : Field) : Prop :=
  field.type.leafSurrounding? .none = some .nonNull ∧
    (env.reference field.type.baseName).value.primitive = some .string

theorem value_fieldExpr_string {field : Field} (h : env.HasStringLeaf field) :
    (env.fieldExpr field).value =
      env.enclose field
        (env.vocabulary.constrain (env.reference field.type.baseName).value.expr
          (env.fieldCalls field ++
            if env.settings.rejectEmptyStrings then [env.vocabulary.minLength 1] else []))
        .none false field.type := by
  rw [fieldExpr, levelExpr, value_walk_of_leaf _ _ _ h.1, env.value_namedExpr_string field h.2]
  rfl

end Environment

end ValidatorGen
