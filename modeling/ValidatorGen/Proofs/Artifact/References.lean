import ValidatorGen.Proofs.Artifact.Blocks
import ValidatorGen.Proofs.Schema.Index
import ValidatorGen.Target.Builtin

/-! References and declarations. A validator is used by its name where its declaration is a
constant, and by a call of its name where its declaration is a function. -/
namespace ValidatorGen

def Emission.IsFunction (e : Emission) : Prop :=
  ∃ rest, e.text = "export function " ++ e.name ++ "()" ++ rest

/-- The name of a constant ends at its type or at its value. -/
def Emission.IsConst (e : Emission) : Prop :=
  ∃ rest, e.text = "export const " ++ e.name ++ " = " ++ rest ∨
    e.text = "export const " ++ e.name ++ ": " ++ rest

theorem Emission.not_isFunction_and_isConst (e : Emission) : ¬ (e.IsFunction ∧ e.IsConst) := by
  rintro ⟨⟨rest, h⟩, ⟨rest', h' | h'⟩⟩ <;>
  · have := congrArg String.toList (h.symm.trans h')
    simp at this

/-- Objects are emitted, or no input object refers to one. -/
def Settings.CoverObjects (settings : Settings) (s : Schema) : Prop :=
  settings.emitObjects = true ∨
    ∀ d ∈ s.definitions, d.kind = .inputObject → ∀ f ∈ d.fields, ∀ e ∈ s.definitions,
      e.name = f.type.baseName → e.kind ≠ .object

namespace Environment
open Logged

variable (env : Environment)

theorem kindOf_of_get? {name : String} {d : Definition} (h : env.index.get? name = some d) :
    env.kindOf name = d.kind := by
  simp [kindOf, Index.kindOf?, h]

theorem expr_reference_enumeration {name : String} (h : env.kindOf name = .enumeration) :
    (env.reference name).value.expr = env.names.validatorName name := by
  simp [reference, h]

theorem expr_reference_object {name : String}
    (h : env.kindOf name = .inputObject ∨ env.kindOf name = .object) :
    (env.reference name).value.expr = env.objectReference name := by
  rcases h with h | h <;> simp [reference, h]

theorem render_declareEnum (name : String) (values : List String) :
    ∃ rest, (env.declareEnum name values).render =
      "export const " ++ env.names.validatorName name ++ " = " ++ rest := by
  refine ⟨(env.declareEnum name values).body ++ ";\n", ?_⟩
  simp [declareEnum, Declaration.render, ← String.toList_inj]

theorem render_declareObject_const (h : env.settings.objectForm = .const) (name : String)
    (entries : List String) :
    ∃ rest, (env.declareObject name entries).render =
      "export const " ++ env.names.validatorName name ++ ": " ++ rest := by
  refine ⟨env.vocabulary.objectType (env.names.typeName name) ++ " = " ++
    (env.declareObject name entries).body ++ ";\n", ?_⟩
  simp [declareObject, h, Declaration.render, ← String.toList_inj]

theorem render_declareObject_function (h : env.settings.objectForm = .function) (name : String)
    (entries : List String) :
    (env.declareObject name entries).render =
      "export function " ++ env.names.validatorName name ++ "()" ++
        (": " ++ env.vocabulary.objectType (env.names.typeName name) ++ " \x7b\n" ++
          Text.indent 1 ("return " ++ env.objectText entries) ++ "\n\x7d\n") := by
  simp [declareObject, h, Declaration.render, ← String.toList_inj]

theorem isConst_block_of_enumeration {d : Definition} (h : d.kind = .enumeration) :
    (env.block d).IsConst := by
  obtain ⟨name, description, body⟩ := d
  cases body with
  | enumeration values =>
    obtain ⟨rest, hrest⟩ := env.render_declareEnum name values
    exact ⟨rest, Or.inl hrest⟩
  | inputObject fields => cases h
  | object fields => cases h
  | scalar => cases h

theorem isConst_block (hform : env.settings.objectForm = .const) (d : Definition) :
    (env.block d).IsConst := by
  by_cases henum : d.kind = .enumeration
  · exact env.isConst_block_of_enumeration henum
  · obtain ⟨rest, hrest⟩ := env.render_declareObject_const hform d.name
      (env.entriesWith d (env.validators d))
    exact ⟨rest, Or.inr ((env.text_block henum).trans hrest)⟩

theorem isFunction_block (hform : env.settings.objectForm = .function) {d : Definition}
    (h : d.kind ≠ .enumeration) : (env.block d).IsFunction :=
  ⟨_, (env.text_block h).trans (env.render_declareObject_function hform d.name _)⟩

/-- The emission of a definition that is not a scalar has the form in which the name is used. -/
theorem exists_emission_matching {d : Definition} (hget : env.index.get? d.name = some d)
    (hscalar : d.kind ≠ .scalar) (hobject : d.kind = .object → env.settings.emitObjects = true) :
    ∃ e, (env.emission? d).value = some e ∧ e.name = env.names.validatorName d.name ∧
      (e.IsFunction ∧ d.kind ≠ .enumeration ∧ (env.reference d.name).value.expr = e.name ++ "()" ∨
        e.IsConst ∧ (env.reference d.name).value.expr = e.name) := by
  have hkind := env.kindOf_of_get? hget
  have hdeclares : env.settings.declares d.kind = true := by
    cases hk : d.kind <;> simp_all [Settings.declares]
  have hemission : (env.emission? d).value = some (env.block d) := by
    rw [value_emission?_eq_block, if_pos hdeclares]
  refine ⟨env.block d, hemission, rfl, ?_⟩
  by_cases henum : d.kind = .enumeration
  · exact Or.inr ⟨env.isConst_block_of_enumeration henum,
      env.expr_reference_enumeration (hkind.trans henum)⟩
  have hform : d.kind = .inputObject ∨ d.kind = .object := by
    cases hk : d.kind <;> simp_all
  have hexpr := env.expr_reference_object (hkind ▸ hform)
  cases hstyle : env.settings.objectForm with
  | const =>
    refine Or.inr ⟨env.isConst_block hstyle d, ?_⟩
    rw [hexpr, objectReference, hstyle]
    rfl
  | function =>
    refine Or.inl ⟨env.isFunction_block hstyle henum, henum, ?_⟩
    rw [hexpr, objectReference, hstyle]
    rfl

/-- Only object definitions with fields are emitted, and objects only when they are asked for. -/
theorem kind_of_emission {d : Definition} (h : (env.emission? d).value.isSome) {f : Field}
    (hf : f ∈ d.fields) :
    d.kind = .inputObject ∨ d.kind = .object ∧ env.settings.emitObjects = true := by
  obtain ⟨name, description, body⟩ := d
  cases body with
  | enumeration values => cases hf
  | inputObject fields => exact Or.inl rfl
  | object fields =>
    cases hemit : env.settings.emitObjects with
    | true => exact Or.inr ⟨rfl, rfl⟩
    | false => simp [value_emission?, declaration?, hemit] at h
  | scalar => cases hf

end Environment

/-- The base of a field's type is emitted under the name by which the field uses it, and the use is
a call exactly where the declaration is a function. Enumerations are never called. -/
theorem reference_agrees_with_declaration {s : Schema} (hs : s.NamesDistinct)
    {settings : Settings} (hobjects : settings.CoverObjects s) (vocabulary : Vocabulary)
    (names : NamingScheme) :
    ∃ index, Index.ofSchema s = .ok index ∧
      let env : Environment := { index, settings, vocabulary, names }
      ∀ d ∈ s.definitions, (env.emission? d).value.isSome → ∀ f ∈ d.fields,
      ∀ base ∈ s.definitions, base.name = f.type.baseName → base.kind ≠ .scalar →
        ∃ e, (env.emission? base).value = some e ∧
          e.name = names.validatorName f.type.baseName ∧
          (e.IsFunction ∨ e.IsConst) ∧
          (e.IsFunction → (env.reference f.type.baseName).value.expr = e.name ++ "()") ∧
          (e.IsConst → (env.reference f.type.baseName).value.expr = e.name) ∧
          (base.kind = .enumeration → e.IsConst) := by
  obtain ⟨index, hindex⟩ := Index.exists_ofSchema hs
  refine ⟨index, hindex, ?_⟩
  intro env d hd hemitted f hf base hbase hname hscalar
  have hobject : base.kind = .object → settings.emitObjects = true := by
    intro hkind
    rcases env.kind_of_emission hemitted hf with hinput | ⟨-, hemit⟩
    · exact hobjects.resolve_right fun h => h d hd hinput f hf base hbase hname hkind
    · exact hemit
  obtain ⟨e, he, hename, hform⟩ :=
    env.exists_emission_matching (Index.get?_of_mem hindex hs hbase) hscalar hobject
  rw [hname] at hename hform
  refine ⟨e, he, hename, ?_⟩
  rcases hform with ⟨hfunction, henum, hexpr⟩ | ⟨hconst, hexpr⟩
  · have hconst : ¬ e.IsConst := fun h => e.not_isFunction_and_isConst ⟨hfunction, h⟩
    exact ⟨Or.inl hfunction, fun _ => hexpr, fun h => (hconst h).elim, fun h => (henum h).elim⟩
  · have hfunction : ¬ e.IsFunction := fun h => e.not_isFunction_and_isConst ⟨h, hconst⟩
    exact ⟨Or.inr hconst, fun h => (hfunction h).elim, fun _ => hexpr, fun _ => hconst⟩

/-- An input object that refers to itself and to an enumeration, where objects are left out. -/
theorem reference_agrees_with_declaration_node :
    let color : Definition := { name := "Color", body := .enumeration ["RED"] }
    let next : Field := { name := "next", type := .list (.named "Node") }
    let tint : Field := { name := "tint", type := .nonNull (.named "Color") }
    let node : Definition := { name := "Node", body := .inputObject [next, tint] }
    let user : Definition := { name := "User", body := .object [] }
    let s : Schema := { definitions := [node, color, user] }
    let settings : Settings := { emitObjects := false }
    s.NamesDistinct ∧ settings.CoverObjects s ∧
      ∃ index, Index.ofSchema s = .ok index ∧
        let env : Environment := ⟨index, settings, zod, .standard "" ""⟩
        (∃ e, (env.emission? node).value = some e ∧ e.name = "NodeSchema" ∧
          (e.IsFunction → (env.reference "Node").value.expr = "NodeSchema()")) ∧
        ∃ e, (env.emission? color).value = some e ∧ e.name = "ColorSchema" ∧ e.IsConst ∧
          (env.reference "Color").value.expr = "ColorSchema" := by
  intro color next tint node user s settings
  have hs : s.NamesDistinct := by simp [Schema.NamesDistinct, s, node, color, user]
  have hobjects : settings.CoverObjects s := by
    right
    simp [s, node, color, user, next, tint, Definition.kind, Definition.fields, Body.kind,
      Body.fields]
  refine ⟨hs, hobjects, ?_⟩
  obtain ⟨index, hindex, h⟩ :=
    reference_agrees_with_declaration hs hobjects zod (.standard "" "")
  have hfields := h node (by simp [s]) rfl
  obtain ⟨e, he, hname, -, hcall, -⟩ :=
    hfields next (by simp [node, Definition.fields, Body.fields]) node (by simp [s]) rfl
      (by simp [node, Definition.kind, Body.kind])
  obtain ⟨e', he', hname', -, -, hbare, hconst⟩ :=
    hfields tint (by simp [node, Definition.fields, Body.fields]) color (by simp [s]) rfl
      (by simp [color, Definition.kind, Body.kind])
  have hNode : e.name = "NodeSchema" := hname.trans (by decide)
  have hColor : e'.name = "ColorSchema" := hname'.trans (by decide)
  refine ⟨index, hindex, ⟨e, he, hNode, ?_⟩, ⟨e', he', hColor, hconst rfl, ?_⟩⟩
  · intro hfunction
    exact (hcall hfunction).trans (by rw [hNode]; rfl)
  · exact (hbare (hconst rfl)).trans hColor

end ValidatorGen
