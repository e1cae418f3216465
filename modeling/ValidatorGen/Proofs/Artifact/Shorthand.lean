import ValidatorGen.Proofs.Artifact.Agreement
import ValidatorGen.Proofs.Validator.Agreement
import ValidatorGen.Proofs.Validator.Sequence
import ValidatorGen.Proofs.Validator.Shorthand

/-! Modules and short forms. Settings whose rules are written out give the same module and the same
events, and a value gives the same validator as the list of it. -/
namespace ValidatorGen

namespace Environment

variable (env : Environment) {directives : DirectiveTable}

/-- The same pass with other rules for directives. -/
def withDirectives (directives : DirectiveTable) : Environment :=
  { env with settings := { env.settings with directives } }

variable (h : env.settings.directives.Expands directives)
include h

theorem fieldExpr_withDirectives (field : Field) :
    (env.withDirectives directives).fieldExpr field = env.fieldExpr field := by
  have hagree : AgreeOnField (env.withDirectives directives) env field :=
    { vocabulary := rfl
      rejectEmptyStrings := rfl
      calls := (Constraint.calls_expands h field.directives).symm
      reference := rfl }
  exact hagree.fieldExpr

theorem artifact_withDirectives :
    (env.withDirectives directives).artifact = env.artifact := by
  have halike : DeclareAlike (env.withDirectives directives) env :=
    { vocabulary := rfl
      names := rfl
      objectForm := rfl
      enumsAsTypes := rfl
      emitObjects := rfl }
  exact halike.artifact rfl rfl (env.fieldExpr_withDirectives h)

end Environment

open Environment

/-- Whether methods are named by themselves or written out as calls, in any number of rules, the
outcome of generation and the events are the same. And a field has the same validator when values of
its directives are put into lists, where they are none themselves and their rule is no choice by
value. -/
theorem shorthands_expand (registry : Registry) (s : Schema) (settings : Settings) :
    (∀ directives, settings.directives.Expands directives →
      Artifact.generate registry s { settings with directives } =
        Artifact.generate registry s settings) ∧
    ∀ (env : Environment) (field : Field) (directives : List Directive),
      List.Forall₂ (Directive.Lists env.settings.directives) field.directives directives →
        (env.fieldExpr { field with directives }).value = (env.fieldExpr field).value := by
  constructor
  · intro directives h
    rw [Artifact.generate, Artifact.generate]
    cases registry.find? settings.backend with
    | none => rfl
    | some vocabulary =>
      cases Index.ofSchema s with
      | error e => rfl
      | ok index =>
        have hartifact : Environment.artifact ⟨index, { settings with directives }, vocabulary,
              .ofSettings { settings with directives }⟩ =
            Environment.artifact ⟨index, settings, vocabulary, .ofSettings settings⟩ :=
          artifact_withDirectives ⟨index, settings, vocabulary, .ofSettings settings⟩ h
        simp only [hartifact]
  · intro env field directives h
    exact env.value_fieldExpr_congr rfl (congrArg Logged.value (Constraint.calls_lists h).symm)

/-- A method for the size and one for a format, written out, and the value of the size in a list. The
format stays as it is, since its rule chooses by the value. -/
theorem shorthands_expand_name :
    let three : Json.Value := .integer ⟨3, by decide, by decide⟩
    let format : Argument := ⟨"format", .string "email"⟩
    let short : DirectiveTable :=
      [("check", [("max", .method "max"), ("format", .byValue [("email", .method "email")])])]
    let long : DirectiveTable :=
      [("check", [("max", .call ["max", "$1"]), ("format", .byValue [("email", .call ["email"])])])]
    let single : List Directive := [⟨"check", [⟨"max", three⟩, format]⟩]
    let listed : List Directive := [⟨"check", [⟨"max", .array [three]⟩, format]⟩]
    let name : Field := { name := "name", type := .named "String", directives := single }
    let s : Schema := { definitions := [{ name := "User", body := .inputObject [name] }] }
    let settings : Settings := { directives := short }
    let env : Environment := ⟨⟨{}, ∅⟩, settings, zod, .standard "" ""⟩
    short.Expands long ∧
      Artifact.generate {} s { settings with directives := long } =
        Artifact.generate {} s settings ∧
      List.Forall₂ (Directive.Lists short) single listed ∧
      (env.fieldExpr { name with directives := listed }).value =
        "z.string().max(3).email().nullish()" := by
  intro three format short long single listed name s settings env
  have hchoices : Table.Alike ChoiceRule.Expands [("email", .method "email")]
      [("email", .call ["email"])] :=
    .cons ⟨rfl, .method "email"⟩ .nil
  have hrules : Table.Alike ArgumentRule.Expands
      [("max", .method "max"), ("format", .byValue [("email", .method "email")])]
      [("max", .call ["max", "$1"]), ("format", .byValue [("email", .call ["email"])])] :=
    .cons ⟨rfl, .method "max"⟩ (.cons ⟨rfl, .byValue hchoices⟩ .nil)
  have hexpands : short.Expands long := .cons ⟨rfl, hrules⟩ .nil
  have hmax : Argument.Lists short "check" ⟨"max", three⟩ ⟨"max", .array [three]⟩ :=
    .singleton "max" nofun nofun
  have hlists : List.Forall₂ (Directive.Lists short) single listed :=
    .cons ⟨rfl, .cons hmax (.cons (.same format) .nil)⟩ .nil
  obtain ⟨hgenerate, hfield⟩ := shorthands_expand {} s settings
  refine ⟨hexpands, hgenerate long hexpands, hlists, ?_⟩
  rw [hfield env name listed hlists]
  decide

end ValidatorGen
