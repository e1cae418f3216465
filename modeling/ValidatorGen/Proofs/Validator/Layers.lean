import ValidatorGen.Proofs.Schema.WellFormed
import ValidatorGen.Target.Builtin
import ValidatorGen.Validator.Field

/-! The validator of a type reference layer by layer. A reference without doubled modifiers is a
base name under some lists, each of them non-null or not; its validator is that of the base name,
wrapped once for each list from the inside outwards. Only the base and the outermost list look at
what encloses the reference and at the constraints of the field. -/
namespace ValidatorGen

/-- A type reference seen from its base name. -/
structure Layers where
  base : String
  /-- Whether the base is non-null itself. -/
  nonNull : Bool := false
  /-- Whether each list is non-null, innermost list first. -/
  lists : List Bool := []
  deriving DecidableEq, Repr

def TypeRef.mark (t : TypeRef) (nonNull : Bool) : TypeRef :=
  if nonNull then .nonNull t else t

def Layers.typeRef (l : Layers) : TypeRef :=
  l.lists.foldl (fun t nonNull => t.list.mark nonNull) ((TypeRef.named l.base).mark l.nonNull)

/-- Makes the outermost list non-null, or the base where there is no list. -/
def Layers.require (l : Layers) : Layers :=
  if l.lists = [] then { l with nonNull := true }
  else { l with lists := l.lists.dropLast ++ [true] }

def TypeRef.layers : TypeRef → Layers
  | named name => { base := name }
  | list element => { element.layers with lists := element.layers.lists ++ [false] }
  | nonNull inner => inner.layers.require

@[simp] theorem TypeRef.mark_false (t : TypeRef) : t.mark false = t := rfl

@[simp] theorem TypeRef.mark_true (t : TypeRef) : t.mark true = .nonNull t := rfl

@[simp] theorem Layers.typeRef_mk_nil (base : String) (nonNull : Bool) :
    (Layers.mk base nonNull []).typeRef = (TypeRef.named base).mark nonNull := rfl

@[simp] theorem Layers.typeRef_mk_append (base : String) (nonNull outermost : Bool)
    (lists : List Bool) :
    (Layers.mk base nonNull (lists ++ [outermost])).typeRef =
      (TypeRef.list (Layers.mk base nonNull lists).typeRef).mark outermost := by
  simp [typeRef]

theorem TypeRef.typeRef_layers {t : TypeRef} (h : t.SingleNonNull) : t.layers.typeRef = t := by
  induction t with
  | named name => rfl
  | list element ih => simp [layers, ih h]
  | nonNull inner ih =>
    obtain ⟨hinner, h⟩ := h
    cases inner with
    | named name => rfl
    | list element => simpa [layers, Layers.require] using ih h
    | nonNull inner => cases hinner

namespace Environment

open Logged

variable (env : Environment) (field : Field) (around : Surrounding)

def fieldCalls : List Call :=
  (Constraint.calls env.settings.directives field.directives).value

/-- The validator of the base name with what the modifiers next to it ask for. -/
def baseExpr (l : Layers) : String :=
  let reference := (env.reference l.base).value
  if l.nonNull ∨ l.lists = [] ∧ around = .nonNull then
    env.vocabulary.constrain reference.expr
      (env.fieldCalls field ++
        if env.settings.rejectEmptyStrings ∧ reference.primitive = some .string then
          [env.vocabulary.minLength 1]
        else [])
  else if l.lists ≠ [] ∨ around = .list then env.vocabulary.nullable reference.expr
  else env.vocabulary.nullish (env.vocabulary.constrain reference.expr (env.fieldCalls field))

def leafExpr (l : Layers) : String :=
  if env.kindOf l.base = .inputObject then env.vocabulary.deferred (env.baseExpr field around l)
  else env.baseExpr field around l

/-- The validator of a list inside another list, from that of its items. -/
def innerListExpr (items : String) (nonNull : Bool) : String :=
  if nonNull then env.vocabulary.listOf items
  else env.vocabulary.nullish (env.vocabulary.listOf items)

/-- The validator of the outermost list, from that of its items. -/
def outerListExpr (items : String) (nonNull : Bool) : String :=
  let array := env.vocabulary.listOf items
  let constrained :=
    if around = .list then array else env.vocabulary.constrain array (env.fieldCalls field)
  if nonNull ∨ around = .nonNull then constrained else env.vocabulary.nullish constrained

def layeredExpr (l : Layers) : String :=
  match l.lists.getLast? with
  | none => env.leafExpr field around l
  | some outermost =>
    env.outerListExpr field around
      (l.lists.dropLast.foldl env.innerListExpr (env.leafExpr field around l)) outermost

theorem walk_mark {t : TypeRef} (h : t.isNonNull = false) (inList nonNull : Bool) :
    env.walk field around inList (t.mark nonNull) =
      env.walk field (if nonNull then .nonNull else around) inList t := by
  cases nonNull with
  | false => rfl
  | true =>
    cases t with
    | nonNull inner => cases h
    | named name => simp [walk]
    | list element => simp [walk]

/-- What directly encloses the base name: its own modifier, the innermost list, or what encloses the
whole reference. -/
def baseSurrounding (l : Layers) : Surrounding :=
  if l.nonNull then .nonNull else if l.lists = [] then around else .list

theorem value_referenceExpr (l : Layers) :
    (env.referenceExpr field (env.reference l.base).value (baseSurrounding around l)).value =
      env.baseExpr field around l := by
  obtain ⟨base, nonNull, lists⟩ := l
  cases nonNull with
  | true => simp [baseSurrounding, baseExpr, referenceExpr, emptyStringCalls, fieldCalls]
  | false =>
    by_cases hlists : lists = []
    · cases around <;>
        simp [baseSurrounding, baseExpr, hlists, referenceExpr, emptyStringCalls, constrained,
          fieldCalls]
    · simp [baseSurrounding, baseExpr, hlists, referenceExpr]

theorem value_namedExpr (l : Layers) :
    (env.namedExpr field (baseSurrounding around l) l.base).value =
      env.leafExpr field around l := by
  simp only [namedExpr, leafExpr, Reference.isDeferred, value_bind, value_pure, kind_reference,
    value_referenceExpr, beq_iff_eq]

theorem value_walk_foldl (lists : List Bool) {t : TypeRef} {expr : String}
    (h : (env.walk field .list true t).value = expr) :
    (env.walk field .list true (lists.foldl (fun t nonNull => t.list.mark nonNull) t)).value =
      lists.foldl env.innerListExpr expr := by
  induction lists generalizing t expr with
  | nil => exact h
  | cons nonNull rest ih =>
    apply ih
    rw [walk_mark _ _ _ rfl, walk]
    cases nonNull <;> simp [innerListExpr, h]

theorem value_levelExpr_typeRef (l : Layers) :
    (env.levelExpr field around l.typeRef).value = env.layeredExpr field around l := by
  have hleaf := env.value_namedExpr field around l
  obtain ⟨base, nonNull, lists⟩ := l
  rcases List.eq_nil_or_concat lists with rfl | ⟨inner, outermost, hlists⟩
  · rw [Layers.typeRef_mk_nil, levelExpr, walk_mark _ _ _ rfl, walk]
    exact hleaf
  · obtain rfl : lists = inner ++ [outermost] := by simpa using hlists
    have hitems : (env.walk field .list true (Layers.mk base nonNull inner).typeRef).value =
        inner.foldl env.innerListExpr
          (env.leafExpr field around ⟨base, nonNull, inner ++ [outermost]⟩) := by
      apply value_walk_foldl
      rw [walk_mark _ _ _ rfl, walk]
      simpa [baseSurrounding] using hleaf
    rw [Layers.typeRef_mk_append, levelExpr, walk_mark _ _ _ rfl, walk]
    cases outermost <;> cases around <;>
      simp [layeredExpr, outerListExpr, hitems, constrained, fieldCalls]

/-- A reference without doubled modifiers is its layers, and its validator is made layer by layer,
whatever encloses it and whatever the vocabulary is. -/
theorem levelExpr_layers {t : TypeRef} (h : t.SingleNonNull) :
    t.layers.typeRef = t ∧
      (env.levelExpr field around t).value = env.layeredExpr field around t.layers := by
  have ht := TypeRef.typeRef_layers h
  refine ⟨ht, ?_⟩
  rw [← value_levelExpr_typeRef, ht]

/-- A non-null list of lists of non-null input objects: the constraint of the field stands at the
outermost list and at the base. -/
theorem levelExpr_layers_nodes :
    let node : Definition := { name := "Node", body := .inputObject [] }
    let t : TypeRef := .nonNull (.list (.list (.nonNull (.named "Node"))))
    let size : Directive :=
      { name := "size", arguments := [⟨"max", .integer ⟨3, by decide, by decide⟩⟩] }
    let env : Environment :=
      { index := ⟨{ definitions := [node] }, Std.TreeMap.ofList [("Node", node)]⟩
        settings := { directives := [("size", [("max", .method "max")])] }
        vocabulary := zod
        names := .standard "" "" }
    t.SingleNonNull ∧
      (env.levelExpr { name := "grid", type := t, directives := [size] } .none t).value =
        "z.array(z.array(z.lazy(() => NodeSchema().max(3))).nullish()).max(3)" := by
  refine ⟨by simp [TypeRef.isNonNull], ?_⟩
  rw [(levelExpr_layers _ _ _ (by simp [TypeRef.isNonNull])).2]
  rfl

end Environment

end ValidatorGen
