import ValidatorGen.Validator.Constraint

/-! Calls look up one rule for each argument of a directive, by the names of both. What else the
table of directives holds does not matter, nor whether it knows a directive by other arguments. -/
namespace ValidatorGen

/-- The rule for an argument of a directive. -/
def DirectiveTable.rule? (table : DirectiveTable) (directive argument : String) :
    Option ArgumentRule :=
  (table.lookup directive).bind (List.lookup argument ·)

namespace Constraint

open Logged

/-- The calls of an argument under the rule that is found for it. -/
def callsOfRule (directive : String) (argument : Argument) :
    Option ArgumentRule → Logged (List Call)
  | none => pure []
  | some rule =>
    match call? rule argument.value with
    | some call => pure [call]
    | none => do
      note (.noCall directive argument.name)
      pure []

theorem callsOfArgument_eq (mappings : Table ArgumentRule) (directive : String)
    (argument : Argument) :
    callsOfArgument mappings directive argument =
      callsOfRule directive argument (mappings.lookup argument.name) := by
  rw [callsOfArgument]
  cases mappings.lookup argument.name <;> rfl

/-- The calls of the arguments of a directive, one rule looked up for each. -/
def callsByRule (table : DirectiveTable) (directive : Directive) : Logged (List (List Call)) :=
  directive.arguments.mapM fun argument =>
    callsOfRule directive.name argument (table.rule? directive.name argument.name)

theorem callsOfDirective_eq (table : DirectiveTable) (directive : Directive) :
    callsOfDirective table directive = List.flatten <$> callsByRule table directive := by
  rw [callsOfDirective, callsByRule]
  cases hlookup : table.lookup directive.name with
  | none =>
    -- a directive without mappings gives no calls, as if each of its arguments had none
    simp [DirectiveTable.rule?, hlookup, callsOfRule, List.map_const']
  | some mappings =>
    have hrules : directive.arguments.mapM (callsOfArgument mappings directive.name) =
        directive.arguments.mapM fun argument =>
          callsOfRule directive.name argument (table.rule? directive.name argument.name) := by
      apply mapM_congr
      intro argument _
      rw [callsOfArgument_eq, DirectiveTable.rule?, hlookup, Option.bind_some]
    rw [← hrules, map_eq_pure_bind]

theorem calls_congr {table table' : DirectiveTable} {directives : List Directive}
    (h : ∀ directive ∈ directives, ∀ argument ∈ directive.arguments,
      table.rule? directive.name argument.name = table'.rule? directive.name argument.name) :
    calls table directives = calls table' directives := by
  have hdirectives : directives.mapM (callsOfDirective table) =
      directives.mapM (callsOfDirective table') := by
    apply mapM_congr
    intro directive hdirective
    have hrules : callsByRule table directive = callsByRule table' directive := by
      apply mapM_congr
      intro argument hargument
      rw [h directive hdirective argument hargument]
    rw [callsOfDirective_eq, callsOfDirective_eq, hrules]
  rw [calls_eq, calls_eq, hdirectives]

end Constraint

end ValidatorGen
