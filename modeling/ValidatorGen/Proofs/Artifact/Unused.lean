import ValidatorGen.Proofs.Artifact.Agreement
import ValidatorGen.Proofs.Schema.Kinds
import ValidatorGen.Proofs.Validator.Agreement
import ValidatorGen.Proofs.Validator.Rules
import ValidatorGen.Target.Builtin

/-! Settings that no declared field uses. The tables of scalars are read for the base names that
stand for scalars, and the table of directives for the arguments that are applied; entries for
anything else change nothing. -/
namespace ValidatorGen

namespace Schema

/-- A declared field is based on the name, and no definition makes it other than a scalar. -/
def UsesScalar (s : Schema) (settings : Settings) (name : String) : Prop :=
  (∃ d ∈ s.declared settings, ∃ f ∈ d.fields, f.type.baseName = name) ∧
    ∀ d ∈ s.definitions, d.name = name → d.kind = .scalar

/-- A directive is applied with an argument of this name to a declared field. -/
def Applies (s : Schema) (settings : Settings) (directive argument : String) : Prop :=
  ∃ d ∈ s.declared settings, ∃ f ∈ d.fields, ∃ applied ∈ f.directives,
    applied.name = directive ∧ ∃ a ∈ applied.arguments, a.name = argument

end Schema

namespace Environment

variable {s : Schema} (hs : s.NamesDistinct) {env : Environment}
  (henv : Index.ofSchema s = .ok env.index) {scalars scalarSchemas : Table String}
  {directives : DirectiveTable}

/-- The same pass with other entries for scalars and for directives. -/
def withEntries (env : Environment) (scalars scalarSchemas : Table String)
    (directives : DirectiveTable) : Environment :=
  { env with settings := { env.settings with scalars, scalarSchemas, directives } }

include hs henv in
theorem agreeOnName_withEntries {name : String}
    (hused : ∃ d ∈ s.declared env.settings, ∃ f ∈ d.fields, f.type.baseName = name)
    (hscalars : ∀ name, s.UsesScalar env.settings name →
      scalars.lookup name = env.settings.scalars.lookup name ∧
        scalarSchemas.lookup name = env.settings.scalarSchemas.lookup name) :
    AgreeOnName (env.withEntries scalars scalarSchemas directives) env name where
  kind := rfl
  identifier _ := rfl
  form _ := rfl
  scalar hkind := by
    have hscalar : ∀ d ∈ s.definitions, d.name = name → d.kind = .scalar := by
      rintro d hd rfl
      rw [← hs.kindOf_of_mem hd, ← kindOf_eq_kindOf henv]
      exact hkind
    obtain ⟨hentry, hschema⟩ := hscalars name ⟨hused, hscalar⟩
    exact ⟨hschema, hentry⟩

theorem calls_withEntries {d : Definition} {field : Field} (hd : d ∈ s.declared env.settings)
    (hfield : field ∈ d.fields)
    (hdirectives : ∀ directive argument, s.Applies env.settings directive argument →
      directives.rule? directive argument = env.settings.directives.rule? directive argument) :
    Constraint.calls directives field.directives =
      Constraint.calls env.settings.directives field.directives := by
  apply Constraint.calls_congr
  intro directive hdirective argument hargument
  exact hdirectives _ _
    ⟨d, hd, field, hfield, directive, hdirective, rfl, argument, hargument, rfl⟩

theorem declareAlike_withEntries :
    DeclareAlike (env.withEntries scalars scalarSchemas directives) env where
  vocabulary := rfl
  names := rfl
  objectForm := rfl
  enumsAsTypes := rfl
  emitObjects := rfl

end Environment

open Environment

/-- Two passes give the same module and the same events if their settings differ only in entries for
scalars that no declared field uses as such and in rules for directive arguments that are applied to
no declared field. -/
theorem artifact_ignores_unused_entries {s : Schema} (hs : s.NamesDistinct) (settings : Settings)
    {scalars scalarSchemas : Table String} {directives : DirectiveTable}
    (hscalars : ∀ name, s.UsesScalar settings name →
      scalars.lookup name = settings.scalars.lookup name ∧
        scalarSchemas.lookup name = settings.scalarSchemas.lookup name)
    (hdirectives : ∀ directive argument, s.Applies settings directive argument →
      directives.rule? directive argument = settings.directives.rule? directive argument)
    (vocabulary : Vocabulary) (names : NamingScheme) :
    ∃ index, Index.ofSchema s = .ok index ∧
      let env : Environment := { index, settings, vocabulary, names }
      (env.withEntries scalars scalarSchemas directives).artifact = env.artifact := by
  obtain ⟨index, hindex⟩ := Index.exists_ofSchema hs
  refine ⟨index, hindex, ?_⟩
  intro env
  have henv : Index.ofSchema s = .ok env.index := hindex
  have hemission : ∀ d ∈ s.definitions,
      (env.withEntries scalars scalarSchemas directives).emission? d = env.emission? d := by
    intro d hd
    apply declareAlike_withEntries.emission?
    intro hdeclared field hfield
    have hmem : d ∈ s.declared settings := Schema.mem_declared.mpr ⟨hd, hdeclared⟩
    have hname : AgreeOnName (env.withEntries scalars scalarSchemas directives) env
        field.type.baseName :=
      agreeOnName_withEntries hs henv ⟨d, hmem, field, hfield, rfl⟩ hscalars
    have hagree : AgreeOnField (env.withEntries scalars scalarSchemas directives) env field :=
      { vocabulary := rfl
        rejectEmptyStrings := rfl
        calls := calls_withEntries hmem hfield hdirectives
        reference := reference_congr rfl hname }
    exact hagree.fieldExpr
  have hschema : env.index.schema = s := (Index.ofSchema_eq_ok henv).1
  have hemissions :
      (env.withEntries scalars scalarSchemas directives).emissions = env.emissions := by
    have hmapM := Logged.mapM_congr hemission
    rw [← hschema] at hmapM
    rw [emissions, emissions, ← hmapM]
    rfl
  rw [artifact, artifact, hemissions]
  rfl

/-- An entry for a scalar that is an enumeration here, and a rule for another argument of a directive
that is applied, against settings without any entry. -/
theorem artifact_ignores_unused_entries_paint :
    let size : Directive :=
      { name := "size", arguments := [⟨"min", .integer ⟨1, by decide, by decide⟩⟩] }
    let tint : Field := { name := "tint", type := .nonNull (.named "Color"), directives := [size] }
    let color : Definition := { name := "Color", body := .enumeration ["RED"] }
    let paint : Definition := { name := "Paint", body := .inputObject [tint] }
    let s : Schema := { definitions := [color, paint] }
    let settings : Settings :=
      { scalars := [("Color", "string")]
        directives := [("size", [("max", .method "max")])]
        rejectEmptyStrings := true }
    s.NamesDistinct ∧
      (∀ name, s.UsesScalar settings name →
        List.lookup name [] = settings.scalars.lookup name ∧
          List.lookup name [] = settings.scalarSchemas.lookup name) ∧
      (∀ directive argument, s.Applies settings directive argument →
        DirectiveTable.rule? [] directive argument =
          settings.directives.rule? directive argument) ∧
      ∃ index, Index.ofSchema s = .ok index ∧
        let env : Environment := ⟨index, settings, zod, .standard "" ""⟩
        (env.withEntries [] [] []).artifact = env.artifact := by
  intro size tint color paint s settings
  have hs : s.NamesDistinct := by simp [Schema.NamesDistinct, s, color, paint]
  have hscalars : ∀ name, s.UsesScalar settings name →
      List.lookup name [] = settings.scalars.lookup name ∧
        List.lookup name [] = settings.scalarSchemas.lookup name := by
    rintro name ⟨⟨d, hd, f, hf, rfl⟩, hscalar⟩
    have hkind : color.kind = .scalar → False := by decide
    simp only [Schema.mem_declared, s, List.mem_cons, List.not_mem_nil, or_false] at hd
    obtain ⟨rfl | rfl, -⟩ := hd
    · cases hf
    · obtain rfl : f = tint := by simpa [paint, Definition.fields, Body.fields] using hf
      exact (hkind (hscalar color (by simp [s]) rfl)).elim
  have hdirectives : ∀ directive argument, s.Applies settings directive argument →
      DirectiveTable.rule? [] directive argument =
        settings.directives.rule? directive argument := by
    rintro directive argument ⟨d, hd, f, hf, applied, happlied, rfl, a, ha, rfl⟩
    simp only [Schema.mem_declared, s, List.mem_cons, List.not_mem_nil, or_false] at hd
    obtain ⟨rfl | rfl, -⟩ := hd
    · cases hf
    · obtain rfl : f = tint := by simpa [paint, Definition.fields, Body.fields] using hf
      obtain rfl : applied = size := by simpa [tint] using happlied
      obtain rfl : a = ⟨"min", .integer ⟨1, by decide, by decide⟩⟩ := by simpa [size] using ha
      rfl
  exact ⟨hs, hscalars, hdirectives,
    artifact_ignores_unused_entries hs settings hscalars hdirectives zod (.standard "" "")⟩

end ValidatorGen
