import ValidatorGen.Proofs.Schema.Kinds
import ValidatorGen.Proofs.Schema.WellFormed
import ValidatorGen.Validator.Field

/-! What is noted while the validator of a field is made, apart from mapped arguments that gave no
call. The walk notes a doubled non-null modifier and goes no further; otherwise it comes to the base
name once, and notes that the name has no validator. -/
namespace ValidatorGen

def Event.isNoCall : Event → Bool
  | .noCall .. => true
  | _ => false

/-- The two degradations of a validator are warnings, and nothing else is one. -/
theorem Event.level_eq_warn_iff {e : Event} :
    e.level = .warn ↔
      (∃ field type, e = .unhandledType field type) ∨
        ∃ scalar backend, e = .unhandledScalar scalar backend := by
  cases e <;> simp [level]

/-- The first reference from the outside whose non-null modifier is doubled. -/
def TypeRef.doubled? : TypeRef → Option TypeRef
  | named _ => none
  | list element => element.doubled?
  | nonNull (nonNull inner) => some (nonNull (nonNull inner))
  | nonNull inner => inner.doubled?

theorem TypeRef.doubled?_eq_none_iff {t : TypeRef} : t.doubled? = none ↔ t.SingleNonNull := by
  induction t with
  | named name => simp [doubled?]
  | list element ih => exact ih
  | nonNull inner ih =>
    cases inner with
    | named name => simp [doubled?, isNonNull]
    | list element => simpa [doubled?, isNonNull] using ih
    | nonNull inner => simp [doubled?, isNonNull]

namespace Logged

variable {α β : Type}

@[simp] theorem events_mapM (f : α → Logged β) (items : List α) :
    (items.mapM f).events = items.flatMap fun item => (f item).events := by
  induction items with
  | nil => rfl
  | cons item rest ih => simp [List.mapM_cons, ih]

/-- The events apart from mapped arguments that gave no call. -/
def reports (x : Logged α) : List Event :=
  x.events.filter (!·.isNoCall)

@[simp] theorem reports_pure (a : α) : (pure a : Logged α).reports = [] := rfl

@[simp] theorem reports_bind (x : Logged α) (f : α → Logged β) :
    (x >>= f).reports = x.reports ++ (f x.value).reports := by
  simp [reports]

@[simp] theorem reports_map (f : α → β) (x : Logged α) : (f <$> x).reports = x.reports := by
  simp [reports]

@[simp] theorem reports_note (event : Event) :
    (note event).reports = if event.isNoCall then [] else [event] := by
  cases h : event.isNoCall <;> simp [reports, h]

@[simp] theorem reports_mapM (f : α → Logged β) (items : List α) :
    (items.mapM f).reports = items.flatMap fun item => (f item).reports := by
  simp only [reports, events_mapM, List.filter_flatMap]

def warnings (x : Logged α) : List Event :=
  x.events.filter (·.level = .warn)

theorem warnings_eq_filter_reports (x : Logged α) :
    x.warnings = x.reports.filter (·.level = .warn) := by
  rw [reports, warnings, List.filter_filter]
  refine List.filter_congr fun event _ => ?_
  cases event <;> rfl

end Logged

namespace Constraint

open Logged

theorem reports_callsOfArgument (mappings : Table ArgumentRule) (directive : String)
    (argument : Argument) : (callsOfArgument mappings directive argument).reports = [] := by
  unfold callsOfArgument
  split
  · rfl
  · split <;> simp [Event.isNoCall]

theorem reports_callsOfDirective (table : DirectiveTable) (directive : Directive) :
    (callsOfDirective table directive).reports = [] := by
  unfold callsOfDirective
  split
  · rfl
  · simp [reports_callsOfArgument]

@[simp] theorem reports_calls (table : DirectiveTable) (directives : List Directive) :
    (calls table directives).reports = [] := by
  simp [calls_eq, reports_callsOfDirective]

end Constraint

/-- The schema has no validator of its own for a name, and the settings give neither a validator nor
a primitive kind for it. -/
structure Settings.LeavesOpen (settings : Settings) (s : Schema) (name : String) : Prop where
  undeclared : ∀ d ∈ s.definitions, d.name = name → d.kind = .scalar
  schema : settings.scalarSchemas.lookup name = none
  primitive : settings.primitive? name = none

namespace Environment

open Logged

variable (env : Environment) (field : Field)

@[simp] theorem reports_constrained (directives : List Directive) (expr : String) :
    (env.constrained directives expr).reports = [] := by
  simp [constrained]

theorem reports_referenceExpr (reference : Reference) (around : Surrounding) :
    (env.referenceExpr field reference around).reports = [] := by
  cases around <;> simp [referenceExpr]

theorem reports_namedExpr (around : Surrounding) (name : String) :
    (env.namedExpr field around name).reports = (env.reference name).reports := by
  simp [namedExpr, reports_referenceExpr]

/-- The walk notes a doubled modifier, or else what its one look at the base name notes. -/
theorem reports_walk (t : TypeRef) (around : Surrounding) (inList : Bool) :
    (env.walk field around inList t).reports =
      match t.doubled? with
      | some doubled => [.unhandledType field.name doubled.text]
      | none => (env.reference t.baseName).reports := by
  induction t generalizing around inList with
  | named name => exact env.reports_namedExpr field around name
  | list element ih =>
    have helement := ih .list true
    cases inList <;> simpa [walk, TypeRef.doubled?] using helement
  | nonNull inner ih =>
    cases inner with
    | named name => exact ih .nonNull inList
    | list element => exact ih .nonNull inList
    | nonNull inner => simp [walk, TypeRef.doubled?, Event.isNoCall]

theorem reports_fieldExpr_of_doubled {doubled : TypeRef}
    (h : field.type.doubled? = some doubled) :
    (env.fieldExpr field).reports = [.unhandledType field.name doubled.text] := by
  have hwalk := env.reports_walk field field.type .none false
  rw [h] at hwalk
  exact hwalk

theorem reports_fieldExpr_of_singleNonNull (h : field.type.SingleNonNull) :
    (env.fieldExpr field).reports = (env.reference field.type.baseName).reports := by
  have hwalk := env.reports_walk field field.type .none false
  rw [TypeRef.doubled?_eq_none_iff.mpr h] at hwalk
  exact hwalk

theorem reports_scalarExpr (name : String) :
    (env.scalarExpr name).reports =
      if env.settings.scalarSchemas.lookup name = none ∧ env.settings.primitive? name = none then
        [.unhandledScalar name env.vocabulary.name]
      else [] := by
  unfold scalarExpr
  split
  · next expr hschema => simp [hschema]
  · next hschema =>
    split
    · next primitive hprimitive => simp [hprimitive]
    · next hprimitive => simp [hschema, hprimitive, Event.isNoCall]

theorem reports_reference_of_scalar {name : String} (h : env.kindOf name = .scalar) :
    (env.reference name).reports = (env.scalarExpr name).reports := by
  simp [reference, h]

/-- A field notes nothing but warnings, and mapped arguments without a call. -/
theorem warnings_fieldExpr : (env.fieldExpr field).warnings = (env.fieldExpr field).reports := by
  rw [warnings_eq_filter_reports, fieldExpr, levelExpr, reports_walk]
  cases field.type.doubled? with
  | some doubled => rfl
  | none =>
    cases hkind : env.kindOf field.type.baseName with
    | enumeration => simp [reference, hkind]
    | inputObject => simp [reference, hkind]
    | object => simp [reference, hkind]
    | scalar =>
      simp only [env.reports_reference_of_scalar hkind, reports_scalarExpr]
      split <;> rfl

variable {env} {s : Schema} (hindex : Index.ofSchema s = .ok env.index) (hs : s.NamesDistinct)
include hindex hs

theorem kindOf_eq_scalar_iff (name : String) :
    env.kindOf name = .scalar ↔ ∀ d ∈ s.definitions, d.name = name → d.kind = .scalar := by
  rw [kindOf_eq_kindOf hindex]
  constructor
  · rintro hscalar d hd rfl
    rw [← hs.kindOf_of_mem hd, hscalar]
  · intro h
    by_contra hne
    obtain ⟨d, hd, hname, hkind⟩ := Schema.defines_of_kindOf rfl hne
    exact hne (hkind ▸ h d hd hname)

/-- A name without any validator is noted once, and no other name is. -/
theorem reports_reference_of_leavesOpen {name : String} (h : env.settings.LeavesOpen s name) :
    (env.reference name).reports = [.unhandledScalar name env.vocabulary.name] := by
  have hkind := (kindOf_eq_scalar_iff hindex hs name).mpr h.undeclared
  rw [env.reports_reference_of_scalar hkind, reports_scalarExpr, if_pos ⟨h.schema, h.primitive⟩]

theorem reports_reference_of_not_leavesOpen {name : String}
    (h : ¬ env.settings.LeavesOpen s name) : (env.reference name).reports = [] := by
  cases hkind : env.kindOf name with
  | enumeration => simp [reference, hkind]
  | inputObject => simp [reference, hkind]
  | object => simp [reference, hkind]
  | scalar =>
    have hundeclared := (kindOf_eq_scalar_iff hindex hs name).mp hkind
    have hopen : ¬ (env.settings.scalarSchemas.lookup name = none ∧
        env.settings.primitive? name = none) := fun hnone => h ⟨hundeclared, hnone.1, hnone.2⟩
    rw [env.reports_reference_of_scalar hkind, reports_scalarExpr, if_neg hopen]

end Environment

end ValidatorGen
