import Mathlib.Data.List.Forall2
import ValidatorGen.Proofs.Validator.Rules

/-! Short forms of rules and of values. A method that is named by itself stands for a call: with the
value as its argument where it is the rule of an argument, and without arguments where it is chosen
by the value. A single value stands for the list of it, unless a rule chooses by the value. -/
namespace ValidatorGen

/-! Rules. -/

/-- Two tables have the same names in the same order, and related entries. -/
def Table.Alike {α : Type} (R : α → α → Prop) : Table α → Table α → Prop :=
  List.Forall₂ fun entry other => entry.1 = other.1 ∧ R entry.2 other.2

theorem Table.Alike.lookup {α : Type} {R : α → α → Prop} {table other : Table α}
    (h : Table.Alike R table other) (name : String) :
    Option.Rel R (table.lookup name) (other.lookup name) := by
  induction h with
  | nil => exact .none
  | @cons entry other rest others hentry _ ih =>
    obtain ⟨key, value⟩ := entry
    obtain ⟨key', value'⟩ := other
    obtain ⟨rfl, hvalue⟩ : key = key' ∧ R value value' := hentry
    rw [List.lookup_cons, List.lookup_cons]
    cases name == key with
    | true => exact .some hvalue
    | false => exact ih

/-- The second choice may write out a method of the first as a call. -/
inductive ChoiceRule.Expands : ChoiceRule → ChoiceRule → Prop
  | same (choice : ChoiceRule) : Expands choice choice
  | method (name : String) : Expands (.method name) (.call [name])

/-- The second rule may write out methods of the first as calls. -/
inductive ArgumentRule.Expands : ArgumentRule → ArgumentRule → Prop
  | same (rule : ArgumentRule) : Expands rule rule
  | method (name : String) : Expands (.method name) (.call [name, "$1"])
  | byValue {choices others : Table ChoiceRule} (h : Table.Alike ChoiceRule.Expands choices others) :
      Expands (.byValue choices) (.byValue others)

/-- The second table may write out methods of the first as calls, in any number of its rules. -/
def DirectiveTable.Expands : DirectiveTable → DirectiveTable → Prop :=
  Table.Alike (Table.Alike ArgumentRule.Expands)

theorem DirectiveTable.Expands.rule? {table other : DirectiveTable} (h : table.Expands other)
    (directive argument : String) :
    Option.Rel ArgumentRule.Expands (table.rule? directive argument)
      (other.rule? directive argument) := by
  have hmappings := Table.Alike.lookup h directive
  rw [DirectiveTable.rule?, DirectiveTable.rule?]
  generalize table.lookup directive = mappings, other.lookup directive = others at hmappings
  cases hmappings with
  | none => exact .none
  | some hmappings => exact hmappings.lookup argument

namespace Constraint

open Logged
open ValidatorGen.Json (Value)

theorem callOfChoice?_expands {choice other : ChoiceRule} (h : choice.Expands other)
    (value : Value) : callOfChoice? choice value = callOfChoice? other value := by
  cases h with
  | same => rfl
  | method name => rfl

theorem call?_expands {rule other : ArgumentRule} (h : rule.Expands other) (value : Value) :
    call? rule value = call? other value := by
  cases h with
  | same => rfl
  | method name => rfl
  | @byValue choices others h =>
    rw [call?, call?]
    cases choiceKey? value with
    | none => rfl
    | some key =>
      have hchoice := h.lookup key
      simp only [Option.bind_eq_bind, Option.bind_some]
      generalize choices.lookup key = choice, others.lookup key = other at hchoice
      cases hchoice with
      | none => rfl
      | some hchoice => exact callOfChoice?_expands hchoice value

theorem callsOfRule_expands {rule other : Option ArgumentRule}
    (h : Option.Rel ArgumentRule.Expands rule other) (directive : String) (argument : Argument) :
    callsOfRule directive argument rule = callsOfRule directive argument other := by
  cases h with
  | none => rfl
  | some h => rw [callsOfRule, callsOfRule, call?_expands h]

/-- Written out or not, rules give the same calls and note the same arguments without one. -/
theorem calls_expands {table other : DirectiveTable} (h : table.Expands other)
    (directives : List Directive) : calls table directives = calls other directives := by
  have hdirective (directive : Directive) :
      callsOfDirective table directive = callsOfDirective other directive := by
    have hrules : callsByRule table directive = callsByRule other directive :=
      mapM_congr fun argument _ =>
        callsOfRule_expands (h.rule? directive.name argument.name) directive.name argument
    rw [callsOfDirective_eq, callsOfDirective_eq, hrules]
  rw [calls_eq, calls_eq, mapM_congr fun directive _ => hdirective directive]

end Constraint

/-! Values. -/

theorem Logged.mapM_eq_of_forall₂ {α β γ : Type} {f : α → Logged γ} {g : β → Logged γ}
    {items : List α} {others : List β} (h : List.Forall₂ (fun item other => f item = g other)
      items others) : items.mapM f = others.mapM g := by
  induction h with
  | nil => rfl
  | cons hitem _ ih => rw [List.mapM_cons, List.mapM_cons, hitem, ih]

/-- The second argument may put the value of the first into a list, where it is no list itself and
no rule chooses by it. -/
inductive Argument.Lists (table : DirectiveTable) (directive : String) : Argument → Argument → Prop
  | same (argument : Argument) : Lists table directive argument argument
  | singleton (name : String) {value : Json.Value} (hvalue : ∀ items, value ≠ .array items)
      (hrule : ∀ choices, table.rule? directive name ≠ some (.byValue choices)) :
      Lists table directive ⟨name, value⟩ ⟨name, .array [value]⟩

/-- The second directive may put values of the first into lists. -/
structure Directive.Lists (table : DirectiveTable) (directive other : Directive) : Prop where
  name : directive.name = other.name
  arguments : List.Forall₂ (Argument.Lists table directive.name) directive.arguments
    other.arguments

namespace Constraint

open Logged
open ValidatorGen.Json (Value)

theorem suppliedValues_eq_singleton {value : Value} (h : ∀ items, value ≠ .array items) :
    suppliedValues value = [value] := by
  cases value with
  | array items => exact (h items rfl).elim
  | _ => rfl

theorem call?_singleton {rule : ArgumentRule} (hrule : ∀ choices, rule ≠ .byValue choices)
    {value : Value} (hvalue : ∀ items, value ≠ .array items) :
    call? rule (.array [value]) = call? rule value := by
  -- A rule that is no choice reads its value as a list of values only.
  have hcall (method : String) (templates : List String) :
      callWith method templates (.array [value]) = callWith method templates value := by
    rw [callWith, callWith, suppliedValues_eq_singleton hvalue]
    rfl
  cases rule with
  | method name => rw [call?, call?, hcall]
  | call parts =>
    cases parts with
    | nil => rfl
    | cons method templates => rw [call?, call?, callOfParts?, callOfParts?, hcall]
  | byValue choices => exact (hrule choices rfl).elim

variable {table : DirectiveTable}

theorem callsOfRule_lists {directive : String} {argument other : Argument}
    (h : argument.Lists table directive other) :
    callsOfRule directive argument (table.rule? directive argument.name) =
      callsOfRule directive other (table.rule? directive other.name) := by
  cases h with
  | same => rfl
  | singleton name hvalue hrule =>
    cases hfound : table.rule? directive name with
    | none => rfl
    | some rule =>
      have hrule : ∀ choices, rule ≠ .byValue choices := fun choices heq =>
        hrule choices (hfound.trans (congrArg some heq))
      rw [callsOfRule, callsOfRule, call?_singleton hrule hvalue]

theorem callsByRule_lists {directive other : Directive} (h : directive.Lists table other) :
    callsByRule table directive = callsByRule table other := by
  rw [callsByRule, callsByRule, ← h.name]
  exact mapM_eq_of_forall₂ (h.arguments.imp fun _ _ => callsOfRule_lists)

theorem calls_lists {directives others : List Directive}
    (h : List.Forall₂ (Directive.Lists table) directives others) :
    calls table directives = calls table others := by
  have hdirectives : directives.mapM (callsOfDirective table) =
      others.mapM (callsOfDirective table) := by
    refine mapM_eq_of_forall₂ (h.imp fun directive other hlists => ?_)
    rw [callsOfDirective_eq, callsOfDirective_eq, callsByRule_lists hlists]
  rw [calls_eq, calls_eq, hdirectives]

end Constraint

end ValidatorGen
