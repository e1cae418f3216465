import ValidatorGen.Validator.Field

/-! What the validator of a field depends on: the vocabulary, the calls of its directives, and what
its base name is used by. The last depends on the kind behind the name, and only for a scalar on the
settings of scalars. -/
namespace ValidatorGen.Environment

open Logged

variable {env env' : Environment}

/-- Two environments agree on all that is read about a name. -/
structure AgreeOnName (env env' : Environment) (name : String) : Prop where
  kind : env.kindOf name = env'.kindOf name
  identifier : env.kindOf name ≠ .scalar →
    env.names.validatorName name = env'.names.validatorName name
  form : env.kindOf name = .inputObject ∨ env.kindOf name = .object →
    env.settings.objectForm = env'.settings.objectForm
  scalar : env.kindOf name = .scalar →
    env.settings.scalarSchemas.lookup name = env'.settings.scalarSchemas.lookup name ∧
      env.settings.scalars.lookup name = env'.settings.scalars.lookup name

theorem objectReference_congr {name : String}
    (hname : env.names.validatorName name = env'.names.validatorName name)
    (hform : env.settings.objectForm = env'.settings.objectForm) :
    env.objectReference name = env'.objectReference name := by
  rw [objectReference, objectReference, hname, hform]

theorem scalarExpr_congr {name : String} (hvocabulary : env.vocabulary = env'.vocabulary)
    (hschema : env.settings.scalarSchemas.lookup name = env'.settings.scalarSchemas.lookup name)
    (hprimitive : env.settings.primitive? name = env'.settings.primitive? name) :
    env.scalarExpr name = env'.scalarExpr name := by
  rw [scalarExpr, scalarExpr, hschema, hprimitive, hvocabulary]

theorem reference_congr {name : String} (hvocabulary : env.vocabulary = env'.vocabulary)
    (h : AgreeOnName env env' name) : env.reference name = env'.reference name := by
  rw [reference, reference, ← h.kind]
  cases hkind : env.kindOf name with
  | enumeration =>
    have hname := h.identifier (by simp [hkind])
    simp only [hname]
  | inputObject =>
    have hexpr := objectReference_congr (h.identifier (by simp [hkind])) (h.form (.inl hkind))
    simp only [hexpr]
  | object =>
    have hexpr := objectReference_congr (h.identifier (by simp [hkind])) (h.form (.inr hkind))
    simp only [hexpr]
  | scalar =>
    obtain ⟨hschema, hscalar⟩ := h.scalar hkind
    have hprimitive : env.settings.primitive? name = env'.settings.primitive? name := by
      rw [Settings.primitive?, Settings.primitive?, hscalar]
    have hexpr := scalarExpr_congr hvocabulary hschema hprimitive
    simp only [hexpr, hprimitive]

/-- Two environments agree on all that is read about a field. -/
structure AgreeOnField (env env' : Environment) (field : Field) : Prop where
  vocabulary : env.vocabulary = env'.vocabulary
  rejectEmptyStrings : env.settings.rejectEmptyStrings = env'.settings.rejectEmptyStrings
  calls : Constraint.calls env.settings.directives field.directives =
    Constraint.calls env'.settings.directives field.directives
  reference : env.reference field.type.baseName = env'.reference field.type.baseName

variable {field : Field}

theorem AgreeOnField.constrained (h : AgreeOnField env env' field) (expr : String) :
    env.constrained field.directives expr = env'.constrained field.directives expr := by
  rw [Environment.constrained, Environment.constrained, h.vocabulary, h.calls]

theorem AgreeOnField.referenceExpr (h : AgreeOnField env env' field) (reference : Reference)
    (around : Surrounding) :
    env.referenceExpr field reference around = env'.referenceExpr field reference around := by
  cases around with
  | none => rw [Environment.referenceExpr, Environment.referenceExpr, h.constrained, h.vocabulary]
  | list => rw [Environment.referenceExpr, Environment.referenceExpr, h.vocabulary]
  | nonNull =>
    simp only [Environment.referenceExpr, emptyStringCalls, h.vocabulary, h.calls,
      h.rejectEmptyStrings]

theorem AgreeOnField.namedExpr (h : AgreeOnField env env' field) (around : Surrounding) :
    env.namedExpr field around field.type.baseName =
      env'.namedExpr field around field.type.baseName := by
  simp only [Environment.namedExpr, h.reference, h.referenceExpr, h.vocabulary]

/-- The walk meets no other name than the base name, so agreement carries over level by level. -/
theorem AgreeOnField.walk (h : AgreeOnField env env' field) {t : TypeRef}
    (ht : t.baseName = field.type.baseName) (around : Surrounding) (inList : Bool) :
    env.walk field around inList t = env'.walk field around inList t := by
  induction t generalizing around inList with
  | named name =>
    obtain rfl : name = field.type.baseName := ht
    exact h.namedExpr around
  | list element ih =>
    simp only [Environment.walk, ih ht, h.vocabulary, h.constrained]
  | nonNull inner ih =>
    cases inner with
    | nonNull inner => rfl
    | named name => exact ih ht .nonNull inList
    | list element => exact ih ht .nonNull inList

theorem AgreeOnField.fieldExpr (h : AgreeOnField env env' field) :
    env.fieldExpr field = env'.fieldExpr field :=
  h.walk rfl .none false

end ValidatorGen.Environment
