import ValidatorGen.Proofs.Artifact.Agreement
import ValidatorGen.Proofs.Schema.Kinds
import ValidatorGen.Proofs.Validator.Agreement
import ValidatorGen.Target.Builtin

/-! Emissions are local. Of the rest of the schema, an emission reads the kinds behind the base
names of its own fields and nothing else, so other definitions may move, change their content or,
where they are scalars, come and go. -/
namespace ValidatorGen

namespace Environment

/-- The same pass over another schema. -/
def withIndex (env : Environment) (index : Index) : Environment :=
  { env with index }

variable {env : Environment} {index : Index}

theorem fieldExpr_withIndex {field : Field}
    (hkind : (env.withIndex index).kindOf field.type.baseName =
      env.kindOf field.type.baseName) :
    (env.withIndex index).fieldExpr field = env.fieldExpr field := by
  have hname : AgreeOnName (env.withIndex index) env field.type.baseName :=
    { kind := hkind
      identifier := fun _ => rfl
      form := fun _ => rfl
      scalar := fun _ => ⟨rfl, rfl⟩ }
  have hfield : AgreeOnField (env.withIndex index) env field :=
    { vocabulary := rfl
      rejectEmptyStrings := rfl
      calls := rfl
      reference := reference_congr rfl hname }
  exact hfield.fieldExpr

theorem declareAlike_withIndex : DeclareAlike (env.withIndex index) env :=
  { vocabulary := rfl
    names := rfl
    objectForm := rfl
    enumsAsTypes := rfl
    emitObjects := rfl }

theorem emission?_withIndex {d : Definition}
    (hkinds : ∀ field ∈ d.fields,
      (env.withIndex index).kindOf field.type.baseName = env.kindOf field.type.baseName) :
    (env.withIndex index).emission? d = env.emission? d :=
  declareAlike_withIndex.emission? fun _ field hfield => fieldExpr_withIndex (hkinds field hfield)

variable {s s' : Schema} (henv : Index.ofSchema s = .ok env.index)
  (hindex : Index.ofSchema s' = .ok index)

include henv hindex

theorem emission?_of_kindOf_eq {d : Definition}
    (hkinds : ∀ field ∈ d.fields, s'.kindOf field.type.baseName = s.kindOf field.type.baseName) :
    (env.withIndex index).emission? d = env.emission? d := by
  apply emission?_withIndex
  intro field hfield
  have hindex' : Index.ofSchema s' = .ok (env.withIndex index).index := hindex
  rw [kindOf_eq_kindOf hindex', kindOf_eq_kindOf henv]
  exact hkinds field hfield

theorem emission?_of_same_kinds (hkinds : s'.kindOf = s.kindOf) (d : Definition) :
    (env.withIndex index).emission? d = env.emission? d :=
  emission?_of_kindOf_eq henv hindex fun _ _ => congrFun hkinds _

/-- Where the same kinds stand behind all names, the definitions of the new schema are emitted as
the old pass emits them. -/
theorem value_artifact_of_same_kinds (hkinds : s'.kindOf = s.kindOf) :
    (env.withIndex index).artifact.value =
      let emissions := s'.definitions.filterMap fun d => (env.emission? d).value
      { prepend := env.prepend (.ofEmissions emissions), content := env.content emissions } := by
  have hemissions : (env.withIndex index).emissions.value =
      s'.definitions.filterMap fun d => (env.emission? d).value := by
    rw [value_emissions, ← (Index.ofSchema_eq_ok hindex).1]
    simp only [emission?_of_same_kinds henv hindex hkinds]
    rfl
  rw [artifact, Logged.value_bind, Logged.value_pure, hemissions]
  rfl

end Environment

namespace Environment

variable (env : Environment)

theorem value_emission?_scalar {d : Definition} (h : d.kind = .scalar) :
    (env.emission? d).value = none := by
  simp [value_emission?_eq_block, h, Settings.declares]

theorem filterMap_emission?_filter {definitions : List Definition} {keep : Definition → Bool}
    (hkeep : ∀ d ∈ definitions, keep d = false → d.kind = .scalar) :
    (definitions.filter keep).filterMap (fun d => (env.emission? d).value) =
      definitions.filterMap fun d => (env.emission? d).value := by
  rw [List.filterMap_filter]
  apply List.filterMap_congr
  intro d hd
  cases hd' : keep d with
  | true => rfl
  | false => simp [env.value_emission?_scalar (hkeep d hd hd')]

variable {env} {s s' : Schema} {index : Index} (henv : Index.ofSchema s = .ok env.index)
  (hindex : Index.ofSchema s' = .ok index)

include henv hindex

theorem value_artifact_of_same_emissions (hkinds : s'.kindOf = s.kindOf)
    (hemissions : s'.definitions.filterMap (fun d => (env.emission? d).value) =
      s.definitions.filterMap fun d => (env.emission? d).value) :
    (env.withIndex index).artifact.value = env.artifact.value := by
  rw [value_artifact_of_same_kinds henv hindex hkinds, hemissions,
    ← (Index.ofSchema_eq_ok henv).1, ← value_emissions]
  rfl

theorem imports_withIndex
    (h : (s'.declared env.settings).map Definition.name =
      (s.declared env.settings).map Definition.name) :
    (env.withIndex index).imports = env.imports := by
  have htypes := congrArg (List.map env.names.typeName) h
  rw [List.map_map, List.map_map] at htypes
  have hschema : env.index.schema = s := (Index.ofSchema_eq_ok henv).1
  have hschema' : (env.withIndex index).index.schema = s' := (Index.ofSchema_eq_ok hindex).1
  rw [imports, imports, declared, declared, hschema, hschema']
  exact congrArg ImportList.ofList htypes

theorem prepend_withIndex
    (h : (s'.declared env.settings).map Definition.name =
      (s.declared env.settings).map Definition.name) :
    (env.withIndex index).artifact.value.prepend = env.artifact.value.prepend := by
  rw [value_artifact, value_artifact, imports_withIndex henv hindex h]
  rfl

end Environment

open Environment

/-- An emission is settled by its definition and the kinds behind the base names of its fields, for
a name without definition that of a scalar. So a reordered schema gives the same emissions in its
order; a definition that is replaced under its name and kind leaves the import lines and all other
emissions as they are; and scalar definitions can be added or left out without any change. -/
theorem emission_reads_only_kinds {s : Schema} (hs : s.NamesDistinct) (settings : Settings)
    (vocabulary : Vocabulary) (names : NamingScheme) :
    ∃ index, Index.ofSchema s = .ok index ∧
      let env : Environment := { index, settings, vocabulary, names }
      (∀ s' : Schema, s'.NamesDistinct → ∃ index', Index.ofSchema s' = .ok index' ∧
        ∀ d ∈ s.definitions, d ∈ s'.definitions →
          (∀ f ∈ d.fields, s'.kindOf f.type.baseName = s.kindOf f.type.baseName) →
          (env.withIndex index').emission? d = env.emission? d) ∧
      (∀ s' : Schema, s'.definitions.Perm s.definitions →
        ∃ index', Index.ofSchema s' = .ok index' ∧
          (∀ d, (env.withIndex index').emission? d = env.emission? d) ∧
          ∃ emissions, emissions.Perm env.emissions.value ∧
            emissions = s'.definitions.filterMap (fun d => (env.emission? d).value) ∧
            (env.withIndex index').artifact.value =
              { prepend := env.prepend (.ofEmissions emissions)
                content := env.content emissions }) ∧
      (∀ before d d' after, s.definitions = before ++ d :: after → d'.name = d.name →
        d'.kind = d.kind → ∃ index', Index.ofSchema ⟨before ++ d' :: after⟩ = .ok index' ∧
          (∀ e ∈ before ++ after, (env.withIndex index').emission? e = env.emission? e) ∧
          (env.withIndex index').artifact.value.prepend = env.artifact.value.prepend) ∧
      (∀ before d after, s.definitions = before ++ after → d.kind = .scalar →
        (∀ e ∈ s.definitions, e.name ≠ d.name) →
        ∃ index', Index.ofSchema ⟨before ++ d :: after⟩ = .ok index' ∧
          (env.withIndex index').artifact.value = env.artifact.value) ∧
      (∀ keep : Definition → Bool, (∀ d ∈ s.definitions, keep d = false → d.kind = .scalar) →
        ∃ index', Index.ofSchema ⟨s.definitions.filter keep⟩ = .ok index' ∧
          (env.withIndex index').artifact.value = env.artifact.value) := by
  obtain ⟨index, hindex⟩ := Index.exists_ofSchema hs
  refine ⟨index, hindex, ?_⟩
  intro env
  have henv : Index.ofSchema s = .ok env.index := hindex
  refine ⟨?_, ?_, ?_, ?_, ?_⟩
  · intro s' hs'
    obtain ⟨index', hindex'⟩ := Index.exists_ofSchema hs'
    exact ⟨index', hindex', fun d _ _ hkinds => emission?_of_kindOf_eq henv hindex' hkinds⟩
  · intro s' hperm
    obtain ⟨hs', hkinds⟩ := Schema.kindOf_of_perm hs hperm
    obtain ⟨index', hindex'⟩ := Index.exists_ofSchema hs'
    refine ⟨index', hindex', emission?_of_same_kinds henv hindex' hkinds, _, ?_, rfl,
      value_artifact_of_same_kinds henv hindex' hkinds⟩
    rw [value_emissions, (Index.ofSchema_eq_ok henv).1]
    exact hperm.filterMap _
  · intro before d d' after h hname hkind
    obtain ⟨hs', hkinds⟩ := Schema.kindOf_of_replace hs h rfl hname hkind
    obtain ⟨index', hindex'⟩ := Index.exists_ofSchema hs'
    refine ⟨index', hindex', fun e _ => emission?_of_same_kinds henv hindex' hkinds e, ?_⟩
    apply prepend_withIndex henv hindex'
    cases hd : env.settings.declares d.kind <;> simp [Schema.declared, h, hkind, hname, hd]
  · intro before d after h hscalar hfresh
    obtain ⟨hs', hkinds⟩ := Schema.kindOf_of_insert hs h rfl hscalar hfresh
    obtain ⟨index', hindex'⟩ := Index.exists_ofSchema hs'
    refine ⟨index', hindex', value_artifact_of_same_emissions henv hindex' hkinds ?_⟩
    simp [h, env.value_emission?_scalar hscalar]
  · intro keep hkeep
    obtain ⟨hs', hkinds⟩ := Schema.kindOf_of_filter hs rfl hkeep
    obtain ⟨index', hindex'⟩ := Index.exists_ofSchema hs'
    exact ⟨index', hindex', value_artifact_of_same_emissions henv hindex' hkinds
      (env.filterMap_emission?_filter hkeep)⟩

/-- A scalar that a field of an input object uses already can be declared between the others. -/
theorem emission_reads_only_kinds_date :
    let born : Field := { name := "born", type := .nonNull (.named "Date") }
    let user : Definition := { name := "User", body := .inputObject [born] }
    let color : Definition := { name := "Color", body := .enumeration ["RED"] }
    let date : Definition := { name := "Date", body := .scalar }
    let s : Schema := { definitions := [user, color] }
    s.NamesDistinct ∧ date.kind = .scalar ∧ (∀ e ∈ s.definitions, e.name ≠ date.name) ∧
      ∃ index index', Index.ofSchema s = .ok index ∧
        Index.ofSchema ⟨[user, date, color]⟩ = .ok index' ∧
        let env : Environment := ⟨index, {}, zod, .standard "" ""⟩
        (env.withIndex index').artifact.value = env.artifact.value := by
  intro born user color date s
  have hs : s.NamesDistinct := by simp [Schema.NamesDistinct, s, user, color]
  have hfresh : ∀ e ∈ s.definitions, e.name ≠ date.name := by simp [s, user, color, date]
  obtain ⟨index, hindex, -, -, -, hinsert, -⟩ :=
    emission_reads_only_kinds hs {} zod (.standard "" "")
  obtain ⟨index', hindex', h⟩ := hinsert [user] date [color] rfl rfl hfresh
  exact ⟨hs, rfl, hfresh, index, index', hindex, hindex', h⟩

end ValidatorGen
