import Mathlib.Logic.Relation
import ValidatorGen.Proofs.Validator.Layers
import ValidatorGen.Proofs.Validator.Rules

/-! The calls of directives in sequence. Each argument gives one call or none, and the calls stand in
the order of the arguments; so directives and arguments that give none can be put in and taken out
without a trace in the validator of a field. -/
namespace ValidatorGen

namespace Constraint

open Logged

variable {table : DirectiveTable}

/-- The call of an argument, if there is a rule for it and the rule gives one. -/
def argumentCall? (table : DirectiveTable) (directive : String) (argument : Argument) :
    Option Call :=
  (table.rule? directive argument.name).bind (call? · argument.value)

theorem value_callsOfRule (directive : String) (argument : Argument) (rule : Option ArgumentRule) :
    (callsOfRule directive argument rule).value = (rule.bind (call? · argument.value)).toList := by
  cases rule with
  | none => rfl
  | some rule =>
    rw [callsOfRule, Option.bind_some]
    cases call? rule argument.value <;> rfl

theorem value_callsOfDirective (table : DirectiveTable) (directive : Directive) :
    (callsOfDirective table directive).value =
      directive.arguments.filterMap (argumentCall? table directive.name) := by
  rw [callsOfDirective_eq, callsByRule, value_map, value_mapM]
  induction directive.arguments with
  | nil => rfl
  | cons argument rest ih =>
    rw [List.map_cons, List.flatten_cons, ih, value_callsOfRule, ← argumentCall?]
    cases h : argumentCall? table directive.name argument <;> simp [h]

theorem value_calls (table : DirectiveTable) (directives : List Directive) :
    (calls table directives).value =
      directives.flatMap fun d => d.arguments.filterMap (argumentCall? table d.name) := by
  rw [calls_eq, value_bind, value_pure, value_mapM, ← List.flatMap_def]
  simp only [value_callsOfDirective]

/-- What is noted comes in the order of the directives too. -/
theorem calls_append (table : DirectiveTable) (first second : List Directive) :
    calls table (first ++ second) =
      (do pure ((← calls table first) ++ (← calls table second))) := by
  simp [calls_eq, List.mapM_append]

/-- One directive more that has no mappings, or one argument more that has no rule or whose rule
gives no call. -/
inductive Insertion (table : DirectiveTable) : List Directive → List Directive → Prop
  | directive (before after : List Directive) {d : Directive} (h : table.lookup d.name = none) :
      Insertion table (before ++ after) (before ++ d :: after)
  | argument (before after : List Directive) (name : String) (front back : List Argument)
      {a : Argument} (h : ∀ rule, table.rule? name a.name = some rule → call? rule a.value = none) :
      Insertion table (before ++ ⟨name, front ++ back⟩ :: after)
        (before ++ ⟨name, front ++ a :: back⟩ :: after)

theorem argumentCall?_of_lookup_eq_none {directive : String} (h : table.lookup directive = none)
    (argument : Argument) : argumentCall? table directive argument = none := by
  rw [argumentCall?, DirectiveTable.rule?, h, Option.bind_none, Option.bind_none]

theorem Insertion.value_calls_eq {directives others : List Directive}
    (h : Insertion table directives others) :
    (calls table directives).value = (calls table others).value := by
  rw [value_calls, value_calls]
  cases h with
  | @directive before after d h =>
    have hnone : d.arguments.filterMap (argumentCall? table d.name) = [] :=
      List.filterMap_eq_nil_iff.mpr fun a _ => argumentCall?_of_lookup_eq_none h a
    rw [List.flatMap_append, List.flatMap_append, List.flatMap_cons, hnone, List.nil_append]
  | @argument before after name front back a h =>
    have hnone : argumentCall? table name a = none := Option.bind_eq_none_iff.mpr h
    rw [List.flatMap_append, List.flatMap_append, List.flatMap_cons, List.flatMap_cons,
      List.filterMap_append, List.filterMap_append, List.filterMap_cons_none hnone]

/-- Any number of insertions and deletions, at any places. -/
def Insertions (table : DirectiveTable) : List Directive → List Directive → Prop :=
  Relation.EqvGen (Insertion table)

theorem Insertions.value_calls_eq {directives others : List Directive}
    (h : Insertions table directives others) :
    (calls table directives).value = (calls table others).value := by
  induction h with
  | rel _ _ h => exact h.value_calls_eq
  | refl _ => rfl
  | symm _ _ _ ih => exact ih.symm
  | trans _ _ _ _ _ ih ih' => exact ih.trans ih'

end Constraint

namespace Environment

open Logged

variable (env : Environment) {field other : Field}

theorem value_constrained (expr : String) :
    (env.constrained field.directives expr).value =
      env.vocabulary.constrain expr (env.fieldCalls field) := rfl

theorem value_walk_list (element : TypeRef) (around : Surrounding) (inList : Bool) :
    (env.walk field around inList (.list element)).value =
      let array := env.vocabulary.listOf (env.walk field .list true element).value
      let constrained :=
        if inList then array else env.vocabulary.constrain array (env.fieldCalls field)
      if around = .nonNull then constrained else env.vocabulary.nullish constrained := by
  cases inList <;> rfl

theorem value_namedExpr_congr (h : env.fieldCalls field = env.fieldCalls other)
    (around : Surrounding) (name : String) :
    (env.namedExpr field around name).value = (env.namedExpr other around name).value := by
  have hreference : (env.referenceExpr field (env.reference name).value around).value =
      (env.referenceExpr other (env.reference name).value around).value := by
    cases around with
    | none => simp only [referenceExpr, value_bind, value_pure, value_constrained, h]
    | list => rfl
    | nonNull =>
      rw [fieldCalls, fieldCalls] at h
      simp only [referenceExpr, value_bind, value_pure, h]
  simp only [namedExpr, value_bind, value_pure, hreference]

/-- The directives of a field count in its validator by their calls only. -/
theorem value_walk_congr (h : env.fieldCalls field = env.fieldCalls other) (t : TypeRef)
    (around : Surrounding) (inList : Bool) :
    (env.walk field around inList t).value = (env.walk other around inList t).value := by
  induction t generalizing around inList with
  | named name => exact env.value_namedExpr_congr h around name
  | list element ih => rw [value_walk_list, value_walk_list, ih, h]
  | nonNull inner ih =>
    cases inner with
    -- A doubled non-null modifier ends the walk before any directive is read.
    | nonNull inner => rfl
    | named name => exact ih .nonNull inList
    | list element => exact ih .nonNull inList

theorem value_fieldExpr_congr (htype : field.type = other.type)
    (h : env.fieldCalls field = env.fieldCalls other) :
    (env.fieldExpr field).value = (env.fieldExpr other).value := by
  rw [fieldExpr, fieldExpr, htype]
  exact env.value_walk_congr h other.type .none _

end Environment

theorem constrain_nil_of_mem_builtins {v : Vocabulary} (h : v ∈ builtins) (expr : String) :
    v.constrain expr [] = expr := by
  rcases mem_builtins.mp h with rfl | rfl | rfl | rfl
  · exact chain_nil expr
  · exact chain_nil expr
  · exact pipe_nil expr
  · exact chain_nil expr

open Constraint

/-- The calls of directives are those of their arguments in order, at most one for each, so two lists
of directives side by side have the calls of the first and then those of the second. Directives
without mappings and arguments that give no call may be put in and taken out anywhere, and neither
the calls nor the validator of any field changes. A field whose directives give no call has the
validator of the field without directives, and no built-in vocabulary writes anything there. -/
theorem silent_directives_vanish (env : Environment) :
    let table := env.settings.directives
    (∀ first second, calls table (first ++ second) =
      (do pure ((← calls table first) ++ (← calls table second)))) ∧
    (∀ directives, (calls table directives).value = directives.flatMap fun d =>
      d.arguments.filterMap fun a => (table.rule? d.name a.name).bind (call? · a.value)) ∧
    (∀ directives others, Insertions table directives others →
      (calls table directives).value = (calls table others).value ∧
      ∀ field : Field, (env.fieldExpr { field with directives }).value =
        (env.fieldExpr { field with directives := others }).value) ∧
    (∀ field : Field, (calls table field.directives).value = [] →
      (env.fieldExpr field).value = (env.fieldExpr { field with directives := [] }).value) ∧
    (env.vocabulary ∈ builtins → ∀ expr, env.vocabulary.constrain expr [] = expr) := by
  intro table
  refine ⟨calls_append table, value_calls table, ?_, ?_, constrain_nil_of_mem_builtins⟩
  · intro directives others h
    have hcalls := h.value_calls_eq
    exact ⟨hcalls, fun field => env.value_fieldExpr_congr rfl hcalls⟩
  · intro field h
    exact env.value_fieldExpr_congr rfl h

/-- A directive without mappings, an argument without a rule and one whose rule knows no such value,
put in around an argument that gives a call. -/
theorem silent_directives_vanish_name :
    let three : Json.Value := .integer ⟨3, by decide, by decide⟩
    let most : Argument := ⟨"max", three⟩
    let unit : Argument := ⟨"unit", .string "char"⟩
    let format : Argument := ⟨"format", .string "plain"⟩
    let note : Directive := { name := "note", arguments := [⟨"text", .null⟩] }
    let plain : List Directive := [⟨"size", [most]⟩]
    let noisy : List Directive := [⟨"size", [unit, most, format]⟩, note]
    let rules : Table ArgumentRule :=
      [("max", .method "max"), ("format", .byValue [("email", .method "email")])]
    let env : Environment :=
      ⟨⟨{}, ∅⟩, { directives := [("size", rules)] }, valibot, .standard "" ""⟩
    let name : Field := { name := "name", type := .named "String" }
    Insertions env.settings.directives plain noisy ∧
      (calls env.settings.directives [note]).value = [] ∧
      (env.fieldExpr { name with directives := noisy }).value =
        "v.nullish(v.pipe(v.string(), v.max(3)))" ∧
      (env.fieldExpr { name with directives := [note] }).value = "v.nullish(v.string())" := by
  intro three most unit format note plain noisy rules env name
  have hunit : Insertion env.settings.directives plain [⟨"size", [unit, most]⟩] :=
    .argument [] [] "size" [] [most] (by decide)
  have hformat : Insertion env.settings.directives [⟨"size", [unit, most]⟩]
      [⟨"size", [unit, most, format]⟩] :=
    .argument [] [] "size" [unit, most] [] (by rintro rule ⟨⟩; rfl)
  have hnote : Insertion env.settings.directives [⟨"size", [unit, most, format]⟩] noisy :=
    .directive [⟨"size", [unit, most, format]⟩] [] rfl
  have hinsertions : Insertions env.settings.directives plain noisy :=
    .trans _ _ _ (.rel _ _ hunit) (.trans _ _ _ (.rel _ _ hformat) (.rel _ _ hnote))
  have hsilent : (calls env.settings.directives [note]).value = [] := rfl
  obtain ⟨-, -, hmoved, hbare, -⟩ := silent_directives_vanish env
  refine ⟨hinsertions, hsilent, ?_, ?_⟩
  · rw [← (hmoved plain noisy hinsertions).2 name]
    decide
  · rw [hbare { name with directives := [note] } hsilent]
    decide

end ValidatorGen
