import ValidatorGen.Proofs.Target.Wording
import ValidatorGen.Proofs.Validator.Layers

/-! The type of a field recovered from its validator. Without constraints of the field, a validator
is what its base name refers to, in the frame of the modifiers. In a built-in vocabulary different
modifiers have different frames, and the place of the base name can be found. -/
namespace ValidatorGen

open Text

attribute [ext] Layers

@[simp] theorem TypeRef.base_layers (t : TypeRef) : t.layers.base = t.baseName := by
  induction t with
  | named name => rfl
  | list element ih => exact ih
  | nonNull inner ih =>
    rw [layers, Layers.require]
    split_ifs <;> exact ih

namespace Environment

variable (env : Environment)

/-- Whether a non-null use of a name refuses the empty string. -/
def rejects (name : String) : Bool :=
  env.settings.rejectEmptyStrings && (env.reference name).value.primitive == some .string

/-- The frame of the validator of a type reference. -/
def frameOf (w : Wording) (l : Layers) : Frame :=
  w.frame (env.kindOf l.base = .inputObject) (env.rejects l.base) l.nonNull l.lists

theorem fieldCalls_eq_nil {field : Field} (h : field.directives = []) :
    env.fieldCalls field = [] := by
  rw [fieldCalls, h]
  rfl

section Framed

variable {env} {w : Wording} (hw : env.vocabulary.Writes w)
include hw

theorem toList_innerListExpr (items : String) (nonNull : Bool) :
    (env.innerListExpr items nonNull).toList = (w.level nonNull).fill items.toList := by
  cases nonNull with
  | true => exact hw.listOf items
  | false =>
    rw [innerListExpr, if_neg Bool.false_ne_true, hw.nullish, hw.listOf, Wording.level,
      if_neg Bool.false_ne_true, Frame.fill_enclose]

theorem toList_foldl_innerListExpr (lists : List Bool) {expr : String} {inner : Frame}
    {cs : List Char} (h : expr.toList = inner.fill cs) :
    (lists.foldl env.innerListExpr expr).toList = (w.nest lists inner).fill cs := by
  induction lists generalizing expr inner with
  | nil => exact h
  | cons nonNull rest ih =>
    apply ih
    rw [toList_innerListExpr hw, h, Frame.fill_enclose]

variable {field : Field} (hdirectives : field.directives = [])
include hdirectives

theorem toList_baseExpr (l : Layers) :
    (env.baseExpr field .none l).toList =
      (w.mark (env.rejects l.base) (0 < l.lists.length) l.nonNull).fill
        (env.reference l.base).value.expr.toList := by
  have hcalls := env.fieldCalls_eq_nil hdirectives
  obtain ⟨base, nonNull, lists⟩ := l
  cases nonNull with
  | true =>
    cases hrejects : env.rejects base with
    | true =>
      obtain ⟨hreject, hstring⟩ : env.settings.rejectEmptyStrings = true ∧
          (env.reference base).value.primitive = some .string := by
        simpa [rejects] using hrejects
      simp [baseExpr, hcalls, hreject, hstring, Wording.mark, hw.nonEmpty]
    | false =>
      have hkept : ¬ (env.settings.rejectEmptyStrings = true ∧
          (env.reference base).value.primitive = some .string) := by
        simpa [rejects] using hrejects
      simp only [baseExpr, hcalls, if_neg hkept, true_or, if_true, List.nil_append,
        hw.unconstrained, Wording.mark, Bool.false_eq_true, if_false, Frame.fill_bare]
  | false =>
    cases lists with
    | nil => simp [baseExpr, hcalls, hw.unconstrained, hw.nullish, Wording.mark]
    | cons outermost rest => simp [baseExpr, hw.nullable, Wording.mark]

theorem toList_leafExpr (l : Layers) :
    (env.leafExpr field .none l).toList =
      (w.leaf (env.kindOf l.base = .inputObject) (env.rejects l.base) (0 < l.lists.length)
        l.nonNull).fill (env.reference l.base).value.expr.toList := by
  have hbase := toList_baseExpr hw hdirectives l
  by_cases hkind : env.kindOf l.base = .inputObject
  · simp [leafExpr, Wording.leaf, hkind, hw.deferred, hbase]
  · simp [leafExpr, Wording.leaf, hkind, hbase]

/-- Without constraints the outermost list is written like the others. -/
theorem layeredExpr_eq_foldl (l : Layers) :
    env.layeredExpr field .none l =
      l.lists.foldl env.innerListExpr (env.leafExpr field .none l) := by
  have hcalls := env.fieldCalls_eq_nil hdirectives
  obtain ⟨base, nonNull, lists⟩ := l
  rcases List.eq_nil_or_concat lists with rfl | ⟨inner, outermost, rfl⟩
  · rfl
  · simp [layeredExpr, outerListExpr, innerListExpr, hcalls, hw.unconstrained]

theorem toList_fieldExpr {l : Layers} (hl : l.typeRef = field.type) :
    (env.fieldExpr field).value.toList =
      (env.frameOf w l).fill (env.reference l.base).value.expr.toList := by
  rw [fieldExpr, ← hl, value_levelExpr_typeRef, layeredExpr_eq_foldl hw hdirectives]
  exact toList_foldl_innerListExpr hw l.lists (toList_leafExpr hw hdirectives l)

end Framed

/-- In a built-in vocabulary, fields without directives and with the same base name have the same
validator exactly if their types are equal, whatever the name refers to. -/
theorem fieldExpr_eq_iff_type_eq {env : Environment} (hvocabulary : env.vocabulary ∈ builtins)
    {f g : Field} (hf : f.directives = []) (hg : g.directives = [])
    (hfsingle : f.type.SingleNonNull) (hgsingle : g.type.SingleNonNull)
    (hbase : f.type.baseName = g.type.baseName) :
    (env.fieldExpr f).value = (env.fieldExpr g).value ↔ f.type = g.type := by
  obtain ⟨w, hw, hlegible⟩ := exists_wording hvocabulary
  have hflayers := TypeRef.typeRef_layers hfsingle
  have hglayers := TypeRef.typeRef_layers hgsingle
  have hfframe := toList_fieldExpr hw hf hflayers
  have hgframe := toList_fieldExpr hw hg hglayers
  have hbases : f.type.layers.base = g.type.layers.base := by simpa using hbase
  constructor
  -- Both frames stand around the same text, so the layers can be compared.
  · intro heq
    rw [← String.toList_inj, hfframe, hgframe, frameOf, frameOf, hbases] at heq
    obtain ⟨hnonNull, hlists⟩ := hlegible.fill_frame_inj heq
    have hlayers : f.type.layers = g.type.layers := Layers.ext hbases hnonNull hlists
    rw [← hflayers, ← hglayers, hlayers]
  · intro htype
    have hlayers : f.type.layers = g.type.layers := congrArg TypeRef.layers htype
    rw [← String.toList_inj, hfframe, hgframe, hlayers]

/-- A scalar whose own validator looks like the end of a list. -/
theorem fieldExpr_eq_iff_type_eq_odd :
    let settings : Settings :=
      { scalars := [("Odd", "string")], scalarSchemas := [("Odd", "odd).optional().nullable()")]
        rejectEmptyStrings := true }
    let env : Environment :=
      { index := ⟨{}, ∅⟩, settings, vocabulary := myzod, names := .ofSettings settings }
    let f : Field := { name := "f", type := .list (.nonNull (.list (.named "Odd"))) }
    let g : Field := { name := "g", type := .nonNull (.list (.list (.nonNull (.named "Odd")))) }
    env.vocabulary ∈ builtins ∧ f.directives = [] ∧ g.directives = [] ∧ f.type.SingleNonNull ∧
      g.type.SingleNonNull ∧ f.type.baseName = g.type.baseName ∧
      (env.fieldExpr f).value ≠ (env.fieldExpr g).value := by
  intro settings env f g
  have hvocabulary : env.vocabulary ∈ builtins := by simp [builtins, env]
  have hf : f.type.SingleNonNull := by decide
  have hg : g.type.SingleNonNull := by decide
  have htypes : f.type ≠ g.type := by decide
  exact ⟨hvocabulary, rfl, rfl, hf, hg, rfl,
    mt (fieldExpr_eq_iff_type_eq hvocabulary rfl rfl hf hg rfl).mp htypes⟩

end Environment

end ValidatorGen
