import ValidatorGen.Proofs.Schema.Index
import ValidatorGen.Proofs.Target.Nesting
import ValidatorGen.Proofs.Validator.Calls

/-! Nesting of whole validators. Schema text gets into an expression as a name or as an argument of
a call, and only a regular expression is an argument that is neither quoted nor JSON text. So no
value of a directive can end the literal or the call that it is put in. -/
namespace ValidatorGen

open Text

namespace Template

variable {arg : String} (hregex : isRegex arg.toList = false)
include hregex

theorem wellNested_stringLiteral {s : String} (h : stringLiteral s = arg) : WellNested arg := by
  obtain rfl := h
  unfold stringLiteral at hregex ⊢
  split at hregex
  · next hs => simp_all
  · next hs =>
    rw [if_neg hs]
    exact Quoted.wellNested_encode s

theorem wellNested_literal {value : Json.Value} (h : literal value = arg) : WellNested arg := by
  cases value with
  | string s => exact wellNested_stringLiteral hregex h
  | _ =>
    obtain rfl := h
    exact Json.Value.wellNested_render _

/-- What a template gives is a literal, whatever the values and the template. -/
theorem wellNested_apply {values : List Json.Value} {template : String}
    (h : apply values template = some arg) : WellNested arg := by
  rw [apply] at h
  split at h
  · obtain ⟨value, -, hliteral⟩ := Option.map_eq_some_iff.mp h
    exact wellNested_literal hregex hliteral
  · split at h
    · cases h
    · exact wellNested_stringLiteral hregex (Option.some.inj h)

end Template

theorem Constraint.wellNested_of_mem_calls {table : DirectiveTable} {directives : List Directive}
    (hmethods : ∀ method ∈ table.methods, Undelimited method)
    (hregex : ∀ call ∈ (calls table directives).value, ∀ arg ∈ call.args,
      Template.isRegex arg.toList = false) :
    ∀ call ∈ (calls table directives).value, call.WellNested := by
  intro call hcall
  have hcallOf := isCallOf_of_mem_calls hcall
  refine ⟨hmethods call.method hcallOf.method, fun arg harg => ?_⟩
  obtain ⟨values, template, happly⟩ := hcallOf.args arg harg
  exact Template.wellNested_apply (hregex call hcall arg harg) happly

theorem NamingScheme.undelimited_ofSettings {settings : Settings} {name : String}
    (hname : Undelimited name) (hbefore : Undelimited settings.typesPrefix)
    (hafter : Undelimited settings.typesSuffix) :
    Undelimited ((ofSettings settings).validatorName name) :=
  ((hbefore.append hname.capitalize).append hafter).append (by decide)

/-- The validator that a built-in vocabulary writes for a field is well nested, whatever the values
of its directives and the templates for them, as long as no argument is a regular expression and
names have no quotes and brackets. -/
theorem wellNested_fieldExpr {vocabulary : Vocabulary} (hvocabulary : vocabulary ∈ builtins)
    (index : Index) {settings : Settings} {field : Field}
    (htype : Undelimited field.type.baseName)
    (hschema : settings.scalarSchemas.lookup field.type.baseName = none)
    (hbefore : Undelimited settings.typesPrefix) (hafter : Undelimited settings.typesSuffix)
    (hmethods : ∀ method ∈ settings.directives.methods, Undelimited method)
    (hregex : ∀ call ∈ (Constraint.calls settings.directives field.directives).value,
      ∀ arg ∈ call.args, Template.isRegex arg.toList = false) :
    let env : Environment := ⟨index, settings, vocabulary, .ofSettings settings⟩
    WellNested (env.fieldExpr field).value := by
  intro env
  have hv : env.vocabulary.Keeps WellNested Call.WellNested :=
    keepsNesting_of_mem_builtins hvocabulary
  have hnone : ∀ expr, env.settings.scalarSchemas.lookup field.type.baseName = some expr →
      WellNested expr := by
    intro expr hexpr
    rw [show env.settings.scalarSchemas.lookup _ = none from hschema] at hexpr
    cases hexpr
  have hname := (NamingScheme.undelimited_ofSettings htype hbefore hafter).wellNested
  have hfield : env.KeepsOnField WellNested Call.WellNested field :=
    { vocabulary := hv
      reference := Environment.reference_keeps hv hnone (fun _ => hname) (·.append (by decide))
      calls := Constraint.wellNested_of_mem_calls hmethods hregex }
  exact hfield.fieldExpr (by decide)

/-- A list of input objects, with quotes, backslashes and brackets in the values of a directive and
in a template for them. -/
theorem wellNested_fieldExpr_tags :
    let value : Json.Value :=
      .array [.string "\"])", .object [("\\\"\x7b", .array [.string "(", .null])]]
    let check : Directive := { name := "check", arguments := [⟨"rule", value⟩] }
    let tags : Field :=
      { name := "tags", type := .list (.nonNull (.named "tag")), directives := [check] }
    let tag : Definition := { name := "tag", body := .inputObject [tags] }
    let s : Schema := { definitions := [tag] }
    let rule : ArgumentRule := .call ["check", "$2", "$1", "not \"$1("]
    let settings : Settings := { typesPrefix := "I", directives := [("check", [("rule", rule)])] }
    valibot ∈ builtins ∧ Undelimited tags.type.baseName ∧
      settings.scalarSchemas.lookup tags.type.baseName = none ∧
      Undelimited settings.typesPrefix ∧ Undelimited settings.typesSuffix ∧
      (∀ method ∈ settings.directives.methods, Undelimited method) ∧
      (∀ call ∈ (Constraint.calls settings.directives tags.directives).value,
        ∀ arg ∈ call.args, Template.isRegex arg.toList = false) ∧
      ∃ index, Index.ofSchema s = .ok index ∧
        let env : Environment := ⟨index, settings, valibot, .ofSettings settings⟩
        WellNested (env.fieldExpr tags).value := by
  intro value check tags tag s rule settings
  have hvalibot : valibot ∈ builtins := by simp [builtins]
  have htype : Undelimited tags.type.baseName := by
    show Undelimited "tag"
    decide
  have hbefore : Undelimited settings.typesPrefix := by
    show Undelimited "I"
    decide
  have hafter : Undelimited settings.typesSuffix := by
    show Undelimited ""
    decide
  have hmethods : ∀ method ∈ settings.directives.methods, Undelimited method := by
    show ∀ method ∈ ["check"], Undelimited method
    decide
  have hcalls : (Constraint.calls settings.directives tags.directives).value =
      [⟨"check", ["\x7b\"\\\\\\\"\x7b\":[\"(\",null]\x7d", "\"\\\"])\"",
        "\"not \\\"\\\"])(\""]⟩] := by
    dsimp only [settings, tags, check, rule, value]
    decide +kernel
  have hregex : ∀ call ∈ (Constraint.calls settings.directives tags.directives).value,
      ∀ arg ∈ call.args, Template.isRegex arg.toList = false := by
    rw [hcalls]
    decide
  have hs : s.NamesDistinct := by simp [Schema.NamesDistinct, s]
  obtain ⟨index, hindex⟩ := Index.exists_ofSchema hs
  exact ⟨hvalibot, htype, rfl, hbefore, hafter, hmethods, hregex, index, hindex,
    wellNested_fieldExpr hvalibot index htype rfl hbefore hafter hmethods hregex⟩

end ValidatorGen
