import Mathlib.Logic.Relation
import ValidatorGen.Proofs.Validator.Expression
import ValidatorGen.Proofs.Validator.Reports

/-! The references that a walk meets. From a reference with a shape it goes to what the outermost
modifier encloses, and it stops at a name or at a reference without a shape. The latter is what it
notes, and what leaves a part of the validator missing. -/
namespace ValidatorGen

open Relation

namespace TypeRef

/-- The walk goes from the first reference to the second one, which its shape encloses. -/
def Opens (t u : TypeRef) : Prop :=
  t.shape? = some (.list u) ∨ t.shape? = some (.nonNull u)

/-- The walk of the first reference meets the second one. -/
abbrev Meets (t u : TypeRef) : Prop :=
  ReflTransGen Opens t u

theorem meets_of_not_opens {t u : TypeRef} (h : ∀ v, ¬ t.Opens v) : t.Meets u ↔ u = t := by
  rw [Meets, ReflTransGen.cases_head_iff]
  constructor
  · rintro (rfl | ⟨v, hv, -⟩)
    · rfl
    · exact (h v hv).elim
  · rintro rfl
    exact Or.inl rfl

theorem meets_of_opens {t next u : TypeRef} (h : ∀ v, t.Opens v ↔ v = next) :
    t.Meets u ↔ u = t ∨ next.Meets u := by
  rw [Meets, ReflTransGen.cases_head_iff]
  constructor
  · rintro (rfl | ⟨v, hv, hmeets⟩)
    · exact Or.inl rfl
    · exact Or.inr ((h v).mp hv ▸ hmeets)
  · rintro (rfl | hmeets)
    · exact Or.inl rfl
    · exact Or.inr ⟨next, (h next).mpr rfl, hmeets⟩

/-- A reference with a shape is not doubled itself, but what it encloses may be. -/
theorem doubled?_step {t next u : TypeRef} (hopens : ∀ v, t.Opens v ↔ v = next)
    (hshape : t.shape? ≠ none) (hdoubled : t.doubled? = next.doubled?)
    (hnext : next.doubled? = some u ↔ next.Meets u ∧ u.shape? = none) :
    t.doubled? = some u ↔ t.Meets u ∧ u.shape? = none := by
  rw [hdoubled, hnext, meets_of_opens hopens, or_and_right, or_iff_right]
  rintro ⟨rfl, hnone⟩
  exact hshape hnone

/-- A doubled modifier is exactly what a walk can meet without a shape. -/
theorem doubled?_eq_some_iff {t u : TypeRef} :
    t.doubled? = some u ↔ t.Meets u ∧ u.shape? = none := by
  induction t with
  | named name =>
    rw [meets_of_not_opens (by simp [Opens, shape?])]
    constructor
    · intro h
      cases h
    · rintro ⟨rfl, hshape⟩
      cases hshape
  | list element ih =>
    have hopens (v : TypeRef) : (list element).Opens v ↔ v = element := by
      simp [Opens, shape?, eq_comm]
    exact doubled?_step hopens (Option.some_ne_none _) rfl ih
  | nonNull inner ih =>
    cases inner with
    | named name =>
      have hopens (v : TypeRef) : (nonNull (named name)).Opens v ↔ v = named name := by
        simp [Opens, shape?, eq_comm]
      exact doubled?_step hopens (Option.some_ne_none _) rfl ih
    | list element =>
      have hopens (v : TypeRef) : (nonNull (list element)).Opens v ↔ v = list element := by
        simp [Opens, shape?, eq_comm]
      exact doubled?_step hopens (Option.some_ne_none _) rfl ih
    | nonNull inner =>
      rw [meets_of_not_opens (by simp [Opens, shape?]), doubled?, Option.some_inj, eq_comm]
      constructor
      · rintro rfl
        exact ⟨rfl, rfl⟩
      · exact fun h => h.1

/-- References without doubled modifiers are those on which a walk finds a shape all the way. -/
theorem singleNonNull_iff_shape? {t : TypeRef} :
    t.SingleNonNull ↔ ∀ u, t.Meets u → u.shape? ≠ none := by
  simp only [← doubled?_eq_none_iff, Option.eq_none_iff_forall_ne_some, ne_eq,
    doubled?_eq_some_iff, not_and]

end TypeRef

namespace Expression

/-- No part of a tree is missing. -/
def Complete : Expression → Prop
  | named _ => True
  | listOf element => element.Complete
  | nullable inner => inner.Complete
  | nullish inner => inner.Complete
  | deferred inner => inner.Complete
  | constrained inner _ => inner.Complete
  | missing => False

end Expression

namespace Logged

/-- Every event but that of a mapped argument without a call is a report. -/
theorem mem_reports {α : Type} {x : Logged α} {event : Event} (h : event.isNoCall = false) :
    event ∈ x.reports ↔ event ∈ x.events := by
  simp [reports, h]

end Logged

namespace Environment

open Logged

variable (env : Environment) (field : Field)

theorem complete_namedTree (around : Surrounding) (name : String) :
    (env.namedTree field around name).Complete := by
  unfold namedTree
  split <;> cases around <;> trivial

/-- A part of a validator is missing exactly if a modifier is doubled in its type. -/
theorem complete_tree_iff (t : TypeRef) (around : Surrounding) (inList : Bool) :
    (env.tree field around inList t).Complete ↔ t.SingleNonNull := by
  induction t generalizing around inList with
  | named name => exact iff_of_true (env.complete_namedTree field around name) trivial
  | list element ih =>
    have helement := ih .list true
    cases inList <;> cases around <;> simpa [tree, Expression.Complete] using helement
  | nonNull inner ih =>
    cases inner with
    | named name =>
      rw [tree_nonNull _ _ rfl]
      simpa [TypeRef.isNonNull] using ih .nonNull inList
    | list element =>
      rw [tree_nonNull _ _ rfl]
      simpa [TypeRef.isNonNull] using ih .nonNull inList
    | nonNull inner => simp [tree, Expression.Complete, TypeRef.isNonNull]

theorem unhandledType_not_mem_reference (name label type : String) :
    .unhandledType label type ∉ (env.reference name).reports := by
  cases hkind : env.kindOf name with
  | enumeration => simp [reference, hkind]
  | inputObject => simp [reference, hkind]
  | object => simp [reference, hkind]
  | scalar =>
    rw [env.reports_reference_of_scalar hkind, reports_scalarExpr]
    split <;> simp

/-- A walk notes a type exactly if it meets a reference without a shape, and it notes the text of
that reference. -/
theorem unhandledType_mem_walk_iff (t : TypeRef) (around : Surrounding) (inList : Bool)
    (label type : String) :
    .unhandledType label type ∈ (env.walk field around inList t).events ↔
      label = field.name ∧ ∃ u, t.Meets u ∧ u.shape? = none ∧ type = u.text := by
  have hevent : (Event.unhandledType label type).isNoCall = false := rfl
  rw [← mem_reports hevent, reports_walk]
  cases hdoubled : t.doubled? with
  | none =>
    have hshape := TypeRef.singleNonNull_iff_shape?.mp (TypeRef.doubled?_eq_none_iff.mp hdoubled)
    refine iff_of_false (env.unhandledType_not_mem_reference _ label type) ?_
    rintro ⟨-, u, hmeets, hnone, -⟩
    exact hshape u hmeets hnone
  | some doubled =>
    rw [List.mem_singleton, Event.unhandledType.injEq]
    refine and_congr_right fun _ => ?_
    constructor
    · rintro rfl
      obtain ⟨hmeets, hnone⟩ := TypeRef.doubled?_eq_some_iff.mp hdoubled
      exact ⟨doubled, hmeets, hnone, rfl⟩
    · rintro ⟨u, hmeets, hnone, rfl⟩
      have hsome := TypeRef.doubled?_eq_some_iff.mpr ⟨hmeets, hnone⟩
      rw [hdoubled] at hsome
      rw [Option.some.inj hsome]

end Environment

end ValidatorGen
