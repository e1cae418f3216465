import ValidatorGen.Proofs.Json.Printer
import ValidatorGen.Proofs.Target.Lines
import ValidatorGen.Proofs.Validator.Patterns
import ValidatorGen.Proofs.Validator.Rules

/-! What the calls of directives are made of: methods that the table names, and arguments that
templates give. Whatever the values of a directive, an argument stays on one line. -/
namespace ValidatorGen

open Text

/-- The method that a choice calls; no parts call none. -/
def ChoiceRule.method? : ChoiceRule → Option String
  | .method name => some name
  | .call parts => parts.head?

/-- The methods that a rule may call. -/
def ArgumentRule.methods : ArgumentRule → List String
  | .method name => [name]
  | .call parts => parts.head?.toList
  | .byValue choices => choices.filterMap fun choice => choice.2.method?

/-- The methods that a table may call. -/
def DirectiveTable.methods (table : DirectiveTable) : List String :=
  table.flatMap fun mappings => mappings.2.flatMap fun mapping => mapping.2.methods

theorem DirectiveTable.methods_subset {table : DirectiveTable} {directive argument : String}
    {rule : ArgumentRule} (h : table.rule? directive argument = some rule) :
    rule.methods ⊆ table.methods := by
  obtain ⟨mappings, hmappings, hrule⟩ := Option.bind_eq_some_iff.mp h
  intro method hmethod
  refine List.mem_flatMap.mpr ⟨_, Table.mem_of_lookup_eq_some hmappings, ?_⟩
  exact List.mem_flatMap.mpr ⟨_, Table.mem_of_lookup_eq_some hrule, hmethod⟩

namespace Template

/-- A regular expression has no line feed, and any other text is quoted. -/
theorem oneLine_stringLiteral (s : String) : OneLine (stringLiteral s) := by
  rw [stringLiteral]
  split
  · next hregex =>
    obtain ⟨_, _, hliteral⟩ := isRegex_iff.mp hregex
    exact hliteral.line
  · exact (Quoted.printable_encode s).oneLine

theorem oneLine_literal (value : Json.Value) : OneLine (literal value) := by
  cases value with
  | string s => exact oneLine_stringLiteral s
  | _ => exact (Json.Value.printable_render _).oneLine

theorem oneLine_apply {values : List Json.Value} {template arg : String}
    (h : apply values template = some arg) : OneLine arg := by
  rw [apply] at h
  split at h
  · obtain ⟨value, -, rfl⟩ := Option.map_eq_some_iff.mp h
    exact oneLine_literal value
  · split at h
    · cases h
    · cases h
      exact oneLine_stringLiteral _

end Template

namespace Constraint

/-- A call of one of the methods, with arguments that templates give. -/
structure IsCallOf (methods : List String) (call : Call) : Prop where
  method : call.method ∈ methods
  args : ∀ arg ∈ call.args, ∃ values template, Template.apply values template = some arg

namespace IsCallOf

variable {call : Call} {value : Json.Value}

theorem mono {methods more : List String} (h : IsCallOf methods call) (hsub : methods ⊆ more) :
    IsCallOf more call :=
  ⟨hsub h.method, h.args⟩

theorem callWith (method : String) (templates : List String) (value : Json.Value) :
    IsCallOf [method] (callWith method templates value) where
  method := List.mem_singleton_self method
  args arg harg := by
    obtain ⟨template, -, happly⟩ := List.mem_filterMap.mp harg
    exact ⟨_, template, happly⟩

theorem of_callOfParts? {parts : List String} (h : callOfParts? parts value = some call) :
    IsCallOf parts.head?.toList call := by
  cases parts with
  | nil => cases h
  | cons method templates =>
    cases h
    exact callWith method templates value

theorem of_callOfChoice? {choice : ChoiceRule} (h : callOfChoice? choice value = some call) :
    IsCallOf choice.method?.toList call := by
  cases choice with
  | method name =>
    cases h
    exact ⟨List.mem_singleton_self name, nofun⟩
  | call parts => exact of_callOfParts? h

theorem of_call? {rule : ArgumentRule} (h : call? rule value = some call) :
    IsCallOf rule.methods call := by
  cases rule with
  | method name =>
    cases h
    exact callWith name ["$1"] value
  | call parts => exact of_callOfParts? h
  | byValue choices =>
    obtain ⟨key, -, hkey⟩ := Option.bind_eq_some_iff.mp h
    obtain ⟨choice, hchoice, hcall⟩ := Option.bind_eq_some_iff.mp hkey
    refine (of_callOfChoice? hcall).mono ?_
    intro method hmethod
    exact List.mem_filterMap.mpr
      ⟨_, Table.mem_of_lookup_eq_some hchoice, Option.mem_toList.mp hmethod⟩

end IsCallOf

theorem isCallOf_of_mem_callsOfRule {directive : String} {argument : Argument}
    {rule : Option ArgumentRule} {call : Call}
    (h : call ∈ (callsOfRule directive argument rule).value) :
    ∃ r, rule = some r ∧ IsCallOf r.methods call := by
  cases rule with
  | none => cases h
  | some rule =>
    refine ⟨rule, rfl, ?_⟩
    rw [callsOfRule] at h
    cases hcall : call? rule argument.value with
    | none =>
      rw [hcall] at h
      cases h
    | some found =>
      rw [hcall] at h
      obtain rfl : call = found := List.mem_singleton.mp h
      exact .of_call? hcall

/-- The table names the method of every call. -/
theorem isCallOf_of_mem_calls {table : DirectiveTable} {directives : List Directive} {call : Call}
    (h : call ∈ (calls table directives).value) : IsCallOf table.methods call := by
  simp only [calls_eq, Logged.value_bind, Logged.value_pure, Logged.value_mapM, List.mem_flatten,
    List.mem_map] at h
  obtain ⟨_, ⟨directive, -, rfl⟩, hcall⟩ := h
  rw [callsOfDirective_eq, callsByRule] at hcall
  simp only [Logged.value_map, Logged.value_mapM, List.mem_flatten, List.mem_map] at hcall
  obtain ⟨_, ⟨argument, -, rfl⟩, hcall⟩ := hcall
  obtain ⟨rule, hrule, hcallOf⟩ := isCallOf_of_mem_callsOfRule hcall
  exact hcallOf.mono (DirectiveTable.methods_subset hrule)

theorem oneLine_of_mem_calls {table : DirectiveTable} {directives : List Directive}
    (hmethods : ∀ method ∈ table.methods, OneLine method) :
    ∀ call ∈ (calls table directives).value, call.OneLine := by
  intro call hcall
  have hcallOf := isCallOf_of_mem_calls hcall
  refine ⟨hmethods call.method hcallOf.method, fun arg harg => ?_⟩
  obtain ⟨values, template, happly⟩ := hcallOf.args arg harg
  exact Template.oneLine_apply happly

end Constraint

end ValidatorGen
