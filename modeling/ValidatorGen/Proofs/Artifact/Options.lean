import ValidatorGen.Proofs.Artifact.Blocks
import ValidatorGen.Proofs.Validator.Agreement
import ValidatorGen.Proofs.Validator.Leaf

/-! Each option of the settings moves a part of the module of its own. The validators of fields read
the form of object validators, the identifiers, the scalars, the directives and whether empty
strings are refused; the declarations read the form again, the identifiers and how enumerations are
checked; the import lines read the rest. -/
namespace ValidatorGen.Environment

open Logged

/-- The same pass with other settings. -/
def withSettings (env : Environment) (settings : Settings) : Environment :=
  { env with settings }

def withImportFrom (env : Environment) (source : Option String) : Environment :=
  env.withSettings { env.settings with importFrom := source }

def withEnumsAsTypes (env : Environment) (flag : Bool) : Environment :=
  env.withSettings { env.settings with enumsAsTypes := flag }

def withEmitObjects (env : Environment) (flag : Bool) : Environment :=
  env.withSettings { env.settings with emitObjects := flag }

def withObjectForm (env : Environment) (form : ObjectForm) : Environment :=
  env.withSettings { env.settings with objectForm := form }

def withRejectEmptyStrings (env : Environment) (flag : Bool) : Environment :=
  env.withSettings { env.settings with rejectEmptyStrings := flag }

/-- Other texts around the names of types, for the standard identifiers. -/
def withTypesAround (env : Environment) (before after : String) : Environment :=
  { env with
    settings := { env.settings with typesPrefix := before, typesSuffix := after }
    names := .standard before after }

/-- Two passes have the same import lines and helpers and declare the same definitions, with the
same texts but for definitions of the given kinds. -/
structure SameBut (moved : Kind → Prop) (env env' : Environment) : Prop where
  prepend : env'.artifact.value.prepend = env.artifact.value.prepend
  helpers : env'.vocabulary.helpers = env.vocabulary.helpers
  declared : ∀ d, (env'.text? d).isSome = (env.text? d).isSome
  text : ∀ d, ¬ moved d.kind → env'.text? d = env.text? d

section Congruence

variable {env env' : Environment}

theorem text?_congr {d : Definition}
    (hdeclares : env'.settings.declares d.kind = env.settings.declares d.kind)
    (hdeclaration : ∀ validators,
      env'.declarationWith d validators = env.declarationWith d validators)
    (hfields : ∀ field ∈ d.fields, (env'.fieldExpr field).value = (env.fieldExpr field).value) :
    env'.text? d = env.text? d := by
  have hvalidators : env'.validators d = env.validators d := List.map_congr_left hfields
  rw [text?_eq, text?_eq, hdeclares, hdeclaration, hvalidators]

/-- Only the declarations of input objects and objects depend on the validators of fields. -/
theorem text?_congr_of_no_fields {d : Definition}
    (hkind : ¬ (d.kind = .inputObject ∨ d.kind = .object))
    (henum : ∀ values, env'.declareEnum d.name values = env.declareEnum d.name values) :
    env'.text? d = env.text? d := by
  rw [text?_eq, text?_eq]
  obtain ⟨name, description, body⟩ := d
  cases body with
  | enumeration values =>
    have hdeclaration := henum values
    simp only [declarationWith, hdeclaration]
    rfl
  | inputObject fields => exact (hkind (.inl rfl)).elim
  | object fields => exact (hkind (.inr rfl)).elim
  | scalar => rfl

theorem isSome_text?_congr (h : env'.settings.declares = env.settings.declares) (d : Definition) :
    (env'.text? d).isSome = (env.text? d).isSome := by
  rw [isSome_text?, isSome_text?, h]

end Congruence

variable (env : Environment)

theorem fieldExpr_withSettings {settings : Settings} {field : Field}
    (hreject : settings.rejectEmptyStrings = env.settings.rejectEmptyStrings)
    (hdirectives : settings.directives = env.settings.directives)
    (href : (env.withSettings settings).reference field.type.baseName =
      env.reference field.type.baseName) :
    (env.withSettings settings).fieldExpr field = env.fieldExpr field := by
  have hagree : AgreeOnField (env.withSettings settings) env field :=
    { vocabulary := rfl
      rejectEmptyStrings := hreject
      calls := by rw [← hdirectives]; rfl
      reference := href }
  exact hagree.fieldExpr

theorem fieldExpr_withImportFrom (source : Option String) (field : Field) :
    (env.withImportFrom source).fieldExpr field = env.fieldExpr field :=
  fieldExpr_withSettings env rfl rfl rfl

theorem fieldExpr_withEnumsAsTypes (flag : Bool) (field : Field) :
    (env.withEnumsAsTypes flag).fieldExpr field = env.fieldExpr field :=
  fieldExpr_withSettings env rfl rfl rfl

theorem fieldExpr_withEmitObjects (flag : Bool) (field : Field) :
    (env.withEmitObjects flag).fieldExpr field = env.fieldExpr field :=
  fieldExpr_withSettings env rfl rfl rfl

theorem fieldExpr_withObjectForm (form : ObjectForm) {field : Field}
    (hbase : ¬ (env.kindOf field.type.baseName = .inputObject ∨
      env.kindOf field.type.baseName = .object)) :
    (env.withObjectForm form).fieldExpr field = env.fieldExpr field := by
  have href : (env.withObjectForm form).reference field.type.baseName =
      env.reference field.type.baseName :=
    reference_congr rfl
      { kind := rfl
        identifier := fun _ => rfl
        form := fun h => (hbase h).elim
        scalar := fun _ => ⟨rfl, rfl⟩ }
  exact fieldExpr_withSettings env rfl rfl href

theorem fieldExpr_withTypesAround (before after : String) {field : Field}
    (hbase : env.kindOf field.type.baseName = .scalar) :
    (env.withTypesAround before after).fieldExpr field = env.fieldExpr field := by
  have hscalar : (env.withTypesAround before after).kindOf field.type.baseName = .scalar := hbase
  have href : (env.withTypesAround before after).reference field.type.baseName =
      env.reference field.type.baseName :=
    reference_congr rfl
      { kind := rfl
        identifier := fun h => (h hscalar).elim
        form := fun _ => rfl
        scalar := fun _ => ⟨rfl, rfl⟩ }
  have hagree : AgreeOnField (env.withTypesAround before after) env field :=
    { vocabulary := rfl, rejectEmptyStrings := rfl, calls := rfl, reference := href }
  exact hagree.fieldExpr

/-! Refusing empty strings. -/

theorem enclose_withRejectEmptyStrings (flag : Bool) (field : Field) (leaf : String)
    (around : Surrounding) (inList : Bool) (t : TypeRef) :
    (env.withRejectEmptyStrings flag).enclose field leaf around inList t =
      env.enclose field leaf around inList t :=
  enclose_congr (env.withRejectEmptyStrings flag) field env rfl rfl leaf around inList t

theorem value_namedExpr_withRejectEmptyStrings (flag : Bool) (field : Field)
    {around : Surrounding} {name : String}
    (h : ¬ (around = .nonNull ∧ (env.reference name).value.primitive = some .string)) :
    ((env.withRejectEmptyStrings flag).namedExpr field around name).value =
      (env.namedExpr field around name).value := by
  cases around with
  | none => rfl
  | list => rfl
  | nonNull =>
    have hprimitive : ((env.reference name).value.primitive == some .string) = false := by
      simpa using h
    have href : (env.withRejectEmptyStrings flag).reference name = env.reference name := rfl
    simp only [namedExpr, value_bind, href, referenceExpr, emptyStringCalls, hprimitive,
      Bool.and_false]
    rfl

theorem value_fieldExpr_withRejectEmptyStrings (flag : Bool) {field : Field}
    (h : ¬ env.HasStringLeaf field) :
    ((env.withRejectEmptyStrings flag).fieldExpr field).value = (env.fieldExpr field).value := by
  cases hleaf : field.type.leafSurrounding? .none with
  | none =>
    rw [fieldExpr, fieldExpr, levelExpr, levelExpr, value_walk_of_hidden _ _ _ hleaf _ "",
      value_walk_of_hidden _ _ _ hleaf _ "", enclose_withRejectEmptyStrings]
  | some leafAround =>
    have hstring : ¬ (leafAround = .nonNull ∧
        (env.reference field.type.baseName).value.primitive = some .string) := by
      rintro ⟨rfl, hprimitive⟩
      exact h ⟨hleaf, hprimitive⟩
    rw [fieldExpr, fieldExpr, levelExpr, levelExpr, value_walk_of_leaf _ _ _ hleaf,
      value_walk_of_leaf _ _ _ hleaf, env.value_namedExpr_withRejectEmptyStrings flag field hstring,
      enclose_withRejectEmptyStrings]

theorem value_fieldExpr_withRejectEmptyStrings_string (flag : Bool) {field : Field}
    (h : env.HasStringLeaf field) :
    ((env.withRejectEmptyStrings flag).fieldExpr field).value =
      env.enclose field
        (env.vocabulary.constrain (env.reference field.type.baseName).value.expr
          (env.fieldCalls field ++ if flag then [env.vocabulary.minLength 1] else []))
        .none false field.type := by
  have hstring : (env.withRejectEmptyStrings flag).HasStringLeaf field := h
  rw [value_fieldExpr_string _ hstring, enclose_withRejectEmptyStrings]
  rfl

/-! The module as a whole. -/

/-- The library is imported first, and at most one line follows. -/
theorem exists_prepend_eq_cons :
    ∃ rest, env.artifact.value.prepend = env.vocabulary.importLine :: rest ∧ rest.length ≤ 1 := by
  rw [value_artifact]
  refine ⟨_, rfl, ?_⟩
  cases env.settings.importFrom with
  | none => simp
  | some source => cases env.imports.isEmpty <;> simp

theorem content_withImportFrom (source : Option String) :
    (env.withImportFrom source).artifact.value.content = env.artifact.value.content := by
  have htext : (env.withImportFrom source).text? = env.text? := by
    funext d
    refine text?_congr rfl (fun _ => rfl) ?_
    intro field _
    rw [fieldExpr_withImportFrom]
  rw [content_artifact, content_artifact, htext]
  rfl

theorem sameBut_withEnumsAsTypes (flag : Bool) :
    SameBut (· = .enumeration) env (env.withEnumsAsTypes flag) where
  prepend := by
    rw [value_artifact, value_artifact]
    rfl
  helpers := rfl
  declared := isSome_text?_congr rfl
  text d hd := by
    refine text?_congr rfl ?_ ?_
    · intro validators
      obtain ⟨name, description, body⟩ := d
      cases body with
      | enumeration values => exact (hd rfl).elim
      | inputObject fields => rfl
      | object fields => rfl
      | scalar => rfl
    · intro field _
      rw [fieldExpr_withEnumsAsTypes]

/-- Without objects the texts of all other definitions stay. -/
theorem text?_withEmitObjects_false (d : Definition) :
    (env.withEmitObjects false).text? d =
      if d.kind = .object then none else (env.withEmitObjects true).text? d := by
  by_cases hobject : d.kind = .object
  · rw [if_pos hobject, text?_eq, hobject]
    rfl
  · rw [if_neg hobject]
    refine text?_congr ?_ (fun _ => rfl) ?_
    · cases hkind : d.kind <;> first | rfl | exact (hobject hkind).elim
    · intro field _
      rw [fieldExpr_withEmitObjects, fieldExpr_withEmitObjects]

/-- The names of the types of enumerations and input objects. -/
def importsWithoutObjects : ImportList :=
  .ofList ((env.index.schema.definitions.filter fun d =>
    d.kind = .enumeration ∨ d.kind = .inputObject).map fun d => env.names.typeName d.name)

theorem prepend_withEmitObjects_false :
    (env.withEmitObjects false).artifact.value.prepend =
      env.prepend env.importsWithoutObjects := by
  have hdeclared : (env.withEmitObjects false).declared =
      env.index.schema.definitions.filter fun d =>
        d.kind = .enumeration ∨ d.kind = .inputObject := by
    rw [declared, Schema.declared]
    congr 1
    funext d
    simp only [withEmitObjects, withSettings]
    cases d.kind <;> rfl
  rw [value_artifact, imports, hdeclared]
  rfl

theorem sameBut_withObjectForm (form : ObjectForm) :
    SameBut (fun kind => kind = .inputObject ∨ kind = .object) env
      (env.withObjectForm form) where
  prepend := by
    rw [value_artifact, value_artifact]
    rfl
  helpers := rfl
  declared := isSome_text?_congr rfl
  text _ hd := text?_congr_of_no_fields hd fun _ => rfl

theorem sameBut_withRejectEmptyStrings (flag : Bool) :
    SameBut (fun kind => kind = .inputObject ∨ kind = .object) env
      (env.withRejectEmptyStrings flag) where
  prepend := by
    rw [value_artifact, value_artifact]
    rfl
  helpers := rfl
  declared := isSome_text?_congr rfl
  text _ hd := text?_congr_of_no_fields hd fun _ => rfl

/-- A module is its import lines, its helpers and the declarations of its definitions, and a
declaration is made from the validators of the fields. The import source settles the second import
line alone, the check of enumerations their declarations alone. Without objects their declarations
and imports are gone, and all else stays. The form of object validators leaves the import lines, the
enumerations and the validators of fields that are based on neither input objects nor objects.
Refusing empty strings adds one last call where a field has a string directly under a non-null
modifier and leaves all other validators and all that is around them. The texts around type names
leave labels, type tags and the validators of fields that are based on scalars. -/
theorem options_move_own_part (env : Environment) :
    (∀ pass : Environment,
      (∃ rest, pass.artifact.value.prepend = pass.vocabulary.importLine :: rest ∧
        rest.length ≤ 1) ∧
      pass.artifact.value.content =
        "\n" ++ "\n".intercalate
          (pass.vocabulary.helpers.map Declaration.render ++
            pass.index.schema.definitions.filterMap pass.text?) ∧
      ∀ d, pass.text? d =
        if pass.settings.declares d.kind then
          some (pass.declarationWith d (pass.validators d)).render
        else none) ∧
    (∀ source,
      (env.withImportFrom source).artifact.value.prepend.head? =
        env.artifact.value.prepend.head? ∧
      (env.withImportFrom source).artifact.value.content = env.artifact.value.content) ∧
    (∀ flag, SameBut (· = .enumeration) env (env.withEnumsAsTypes flag)) ∧
    ((∀ d, (env.withEmitObjects false).text? d =
        if d.kind = .object then none else (env.withEmitObjects true).text? d) ∧
      (env.withEmitObjects false).artifact.value.prepend =
        env.prepend env.importsWithoutObjects) ∧
    (∀ form,
      SameBut (fun kind => kind = .inputObject ∨ kind = .object) env (env.withObjectForm form) ∧
      ∀ field : Field, ¬ (env.kindOf field.type.baseName = .inputObject ∨
          env.kindOf field.type.baseName = .object) →
        (env.withObjectForm form).fieldExpr field = env.fieldExpr field) ∧
    (SameBut (fun kind => kind = .inputObject ∨ kind = .object)
        (env.withRejectEmptyStrings false) (env.withRejectEmptyStrings true) ∧
      (∀ d validators, (env.withRejectEmptyStrings true).declarationWith d validators =
        (env.withRejectEmptyStrings false).declarationWith d validators) ∧
      ∀ field : Field,
        let refused := ((env.withRejectEmptyStrings true).fieldExpr field).value
        let allowed := ((env.withRejectEmptyStrings false).fieldExpr field).value
        let around := fun calls => env.enclose field
          (env.vocabulary.constrain (env.reference field.type.baseName).value.expr calls)
          .none false field.type
        (¬ env.HasStringLeaf field → refused = allowed) ∧
        (env.HasStringLeaf field →
          allowed = around (env.fieldCalls field) ∧
          refused = around (env.fieldCalls field ++ [env.vocabulary.minLength 1]))) ∧
    (∀ before after,
      (∀ d validators, (env.withTypesAround before after).entriesWith d validators =
        env.entriesWith d validators) ∧
      ∀ field : Field, env.kindOf field.type.baseName = .scalar →
        (env.withTypesAround before after).fieldExpr field = env.fieldExpr field) := by
  refine ⟨?_, ?_, env.sameBut_withEnumsAsTypes, ?_, ?_, ?_, ?_⟩
  · intro pass
    exact ⟨pass.exists_prepend_eq_cons, pass.content_artifact, pass.text?_eq⟩
  · intro source
    obtain ⟨rest, hrest, -⟩ := (env.withImportFrom source).exists_prepend_eq_cons
    obtain ⟨rest', hrest', -⟩ := env.exists_prepend_eq_cons
    refine ⟨?_, env.content_withImportFrom source⟩
    rw [hrest, hrest']
    rfl
  · exact ⟨env.text?_withEmitObjects_false, env.prepend_withEmitObjects_false⟩
  · intro form
    exact ⟨env.sameBut_withObjectForm form, fun field => env.fieldExpr_withObjectForm form⟩
  · refine ⟨(env.withRejectEmptyStrings false).sameBut_withRejectEmptyStrings true,
      fun _ _ => rfl, ?_⟩
    intro field refused allowed around
    constructor
    · intro h
      have hrefused := env.value_fieldExpr_withRejectEmptyStrings true h
      have hallowed := env.value_fieldExpr_withRejectEmptyStrings false h
      exact hrefused.trans hallowed.symm
    · intro h
      have hrefused := env.value_fieldExpr_withRejectEmptyStrings_string true h
      have hallowed := env.value_fieldExpr_withRejectEmptyStrings_string false h
      refine ⟨?_, hrefused⟩
      simpa using hallowed
  · intro before after
    exact ⟨fun _ _ => rfl, fun field => env.fieldExpr_withTypesAround before after⟩

/-- Refusing empty strings inside a list: the call stands at the items and not at the list. -/
theorem options_move_own_part_tags :
    let field : Field := { name := "tags", type := .list (.nonNull (.named "String")) }
    let env : Environment := ⟨⟨{}, ∅⟩, {}, zod, .standard "" ""⟩
    env.HasStringLeaf field ∧
      ((env.withRejectEmptyStrings false).fieldExpr field).value =
        "z.array(z.string()).nullish()" ∧
      ((env.withRejectEmptyStrings true).fieldExpr field).value =
        "z.array(z.string().min(1)).nullish()" := by
  intro field env
  have hleaf : env.HasStringLeaf field := ⟨rfl, by decide⟩
  obtain ⟨-, -, -, -, -, ⟨-, -, hfield⟩, -⟩ := options_move_own_part env
  obtain ⟨hallowed, hrefused⟩ := (hfield field).2 hleaf
  refine ⟨hleaf, hallowed.trans ?_, hrefused.trans ?_⟩
  · decide
  · decide

end ValidatorGen.Environment
