import ValidatorGen.Validator.Field

/-! Properties of expressions that carry over to whole validators: it is enough that a vocabulary
keeps the property with each of its parts. -/
namespace ValidatorGen

/-- All parts of an expression have the property `P` if what they are put around has it, and
constraints may be put on an expression if their calls have the property `Q`. -/
structure Vocabulary.Keeps (v : Vocabulary) (P : String → Prop) (Q : Call → Prop) : Prop where
  primitive (kind : Primitive) : P (v.primitive kind)
  anyDefined : P v.anyDefined
  listOf {expr : String} : P expr → P (v.listOf expr)
  nullable {expr : String} : P expr → P (v.nullable expr)
  nullish {expr : String} : P expr → P (v.nullish expr)
  deferred {expr : String} : P expr → P (v.deferred expr)
  constrain {expr : String} {calls : List Call} :
    P expr → (∀ call ∈ calls, Q call) → P (v.constrain expr calls)
  minLength (length : Nat) : Q (v.minLength length)

namespace Environment

open Logged

variable {env : Environment} {P : String → Prop} {Q : Call → Prop}

/-- A property of what the base name of a field is used by, and of the calls of its directives. -/
structure KeepsOnField (env : Environment) (P : String → Prop) (Q : Call → Prop) (field : Field) :
    Prop where
  vocabulary : env.vocabulary.Keeps P Q
  reference : P (env.reference field.type.baseName).value.expr
  calls : ∀ call ∈ (Constraint.calls env.settings.directives field.directives).value, Q call

section Reference

variable (hv : env.vocabulary.Keeps P Q) {name : String}
  (hschema : ∀ expr, env.settings.scalarSchemas.lookup name = some expr → P expr)
include hv hschema

theorem scalarExpr_keeps : P (env.scalarExpr name).value := by
  rw [scalarExpr]
  cases hlookup : env.settings.scalarSchemas.lookup name with
  | some expr => exact hschema expr hlookup
  | none =>
    cases env.settings.primitive? name with
    | some kind => exact hv.primitive kind
    | none => exact hv.anyDefined

/-- Names are converted only where a definition has a validator of its own. -/
theorem reference_keeps (hname : env.kindOf name ≠ .scalar → P (env.names.validatorName name))
    (hcalled : ∀ {expr : String}, P expr → P (expr ++ "()")) :
    P (env.reference name).value.expr := by
  have hobject (h : P (env.names.validatorName name)) : P (env.objectReference name) := by
    unfold objectReference
    split
    · exact h
    · exact hcalled h
  unfold reference
  cases hkind : env.kindOf name with
  | enumeration => exact hname (by simp [hkind])
  | inputObject => exact hobject (hname (by simp [hkind]))
  | object => exact hobject (hname (by simp [hkind]))
  | scalar => exact scalarExpr_keeps hv hschema

end Reference

namespace KeepsOnField

variable {field : Field} (h : env.KeepsOnField P Q field)
include h

theorem constrained {expr : String} (hexpr : P expr) :
    P (env.constrained field.directives expr).value :=
  h.vocabulary.constrain hexpr h.calls

theorem emptyStringCalls (reference : Reference) :
    ∀ call ∈ env.emptyStringCalls reference, Q call := by
  unfold Environment.emptyStringCalls
  split
  · simpa using h.vocabulary.minLength 1
  · simp

theorem referenceExpr {reference : Reference} (hexpr : P reference.expr)
    (around : Surrounding) : P (env.referenceExpr field reference around).value := by
  cases around with
  | none => exact h.vocabulary.nullish (h.constrained hexpr)
  | list => exact h.vocabulary.nullable hexpr
  | nonNull =>
    apply h.vocabulary.constrain hexpr
    exact List.forall_mem_append.mpr ⟨h.calls, h.emptyStringCalls reference⟩

theorem namedExpr (around : Surrounding) :
    P (env.namedExpr field around field.type.baseName).value := by
  have hexpr := h.referenceExpr h.reference around
  simp only [Environment.namedExpr, value_bind, value_pure]
  split
  · exact h.vocabulary.deferred hexpr
  · exact hexpr

theorem walk (hempty : P "") {t : TypeRef} (ht : t.baseName = field.type.baseName)
    (around : Surrounding) (inList : Bool) : P (env.walk field around inList t).value := by
  induction t generalizing around inList with
  | named name =>
    obtain rfl : name = field.type.baseName := ht
    exact h.namedExpr around
  | list element ih =>
    have harray := h.vocabulary.listOf (ih ht .list true)
    have hnullish {expr : String} (hexpr : P expr) :
        P (if around = .nonNull then expr else env.vocabulary.nullish expr) := by
      split
      · exact hexpr
      · exact h.vocabulary.nullish hexpr
    cases inList with
    | true => exact hnullish harray
    | false => exact hnullish (h.constrained harray)
  | nonNull inner ih =>
    cases inner with
    | nonNull inner => exact hempty
    | named name => exact ih ht .nonNull inList
    | list element => exact ih ht .nonNull inList

/-- The validator of a field has the property, also where a doubled non-null makes it empty. -/
theorem fieldExpr (hempty : P "") : P (env.fieldExpr field).value :=
  h.walk hempty rfl .none false

end KeepsOnField

end Environment

end ValidatorGen
