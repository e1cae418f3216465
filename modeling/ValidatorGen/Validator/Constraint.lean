import ValidatorGen.Settings.Basic
import ValidatorGen.Schema.Definition
import ValidatorGen.Target.Vocabulary
import ValidatorGen.Validator.Event
import ValidatorGen.Validator.Template

/-!
Constraints that directives put on a field. Each mapped argument gives at most one call, in order
of declaration; directives and arguments without a mapping give none.
-/
namespace ValidatorGen.Constraint

open ValidatorGen.Json (Value)

/-- A list supplies its items, any other value itself. -/
def suppliedValues : Value → List Value
  | .array items => items
  | value => [value]

/-- The key by which a value chooses its mapping. -/
def choiceKey? : Value → Option String
  | .string s => some s
  | .bool b => some (Value.bool b).render
  | .integer n => some (Value.integer n).render
  | .float x => some (Value.float x).render
  | _ => none

def callWith (method : String) (templates : List String) (value : Value) : Call :=
  ⟨method, templates.filterMap (Template.apply (suppliedValues value))⟩

/-- A method name and the templates of its arguments. -/
def callOfParts? (parts : List String) (value : Value) : Option Call :=
  match parts with
  | [] => none
  | method :: templates => some (callWith method templates value)

def callOfChoice? (mapping : ChoiceRule) (value : Value) : Option Call :=
  match mapping with
  | .method name => some ⟨name, []⟩
  | .call parts => callOfParts? parts value

def call? (mapping : ArgumentRule) (value : Value) : Option Call :=
  match mapping with
  | .method name => some (callWith name ["$1"] value)
  | .call parts => callOfParts? parts value
  | .byValue choices => do callOfChoice? (← choices.lookup (← choiceKey? value)) value

/-- The calls of one argument of a directive, under the mappings of that directive. -/
def callsOfArgument (mappings : Table ArgumentRule) (directive : String) (argument : Argument) :
    Logged (List Call) :=
  match mappings.lookup argument.name with
  | none => pure []
  | some mapping =>
    match call? mapping argument.value with
    | some call => pure [call]
    | none => do
      Logged.note (.noCall directive argument.name)
      pure []

def callsOfDirective (table : DirectiveTable) (directive : Directive) : Logged (List Call) :=
  match table.lookup directive.name with
  | none => pure []
  | some mappings => do
    pure (← directive.arguments.mapM (callsOfArgument mappings directive.name)).flatten

/-- The calls of all directives, in order. There is nothing to look for without directives or without
mappings. -/
def calls (table : DirectiveTable) (directives : List Directive) : Logged (List Call) :=
  if directives.isEmpty || table.isEmpty then pure []
  else do pure (← directives.mapM (callsOfDirective table)).flatten

theorem mapM_callsOfDirective_nil (directives : List Directive) :
    directives.mapM (callsOfDirective []) = pure (List.replicate directives.length []) := by
  induction directives with
  | nil => rfl
  | cons directive rest ih =>
    rw [List.mapM_cons, ih]
    rfl

/-- The early return gives what the directives would give one by one. -/
theorem calls_eq (table : DirectiveTable) (directives : List Directive) :
    calls table directives = (do pure (← directives.mapM (callsOfDirective table)).flatten) := by
  rw [calls]
  split
  · next hempty =>
    rcases Bool.or_eq_true_iff.mp hempty with hnone | hnone
    · rw [List.isEmpty_iff.mp hnone]
      rfl
    · rw [List.isEmpty_iff.mp hnone, mapM_callsOfDirective_nil, pure_bind,
        List.flatten_replicate_nil]
  · rfl

end ValidatorGen.Constraint
