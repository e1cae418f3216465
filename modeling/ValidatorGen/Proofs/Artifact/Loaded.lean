import ValidatorGen.Proofs.Artifact.Reports
import ValidatorGen.Proofs.Schema.Loaded
import ValidatorGen.Proofs.Validator.Descent

/-! Generation from loaded schemas. The reader of type references never doubles a non-null modifier,
so a walk finds a shape on every reference that it meets, and no validator misses a part. -/
namespace ValidatorGen

namespace Environment

open Logged

/-- Types with single modifiers in the declared definitions leave nothing to note about types. -/
theorem unhandledType_not_mem_artifact {env : Environment}
    (hsingle : ∀ d ∈ env.index.schema.definitions, ∀ f ∈ d.fields, f.type.SingleNonNull)
    (label type : String) : .unhandledType label type ∉ env.artifact.events := by
  have hfield {d : Definition} (hd : d ∈ env.declared) {f : Field} (hf : f ∈ d.fields) :
      .unhandledType label type ∉ (env.fieldExpr f).reports := by
    have hmem : d ∈ env.index.schema.definitions := (Schema.mem_declared.mp hd).1
    rw [env.reports_fieldExpr_of_singleNonNull f (hsingle d hmem f hf)]
    exact env.unhandledType_not_mem_reference f.type.baseName label type
  have hevent : (Event.unhandledType label type).isNoCall = false := rfl
  rw [← mem_reports hevent, reports_artifact, List.mem_flatMap]
  rintro ⟨d, hd, hreport⟩
  rcases List.mem_append.mp hreport with hreport | hreport
  · obtain ⟨f, hf, hreport⟩ := List.mem_flatMap.mp hreport
    exact hfield hd hf hreport
  · cases List.mem_singleton.mp hreport

end Environment

/-- Generation adds to the events of the module only that it found the backend. -/
theorem Artifact.unhandledType_mem_generate {registry : Registry} {s : Schema}
    {settings : Settings} {label type : String}
    (h : .unhandledType label type ∈ (Artifact.generate registry s settings).events) :
    ∃ env : Environment, Index.ofSchema s = .ok env.index ∧
      .unhandledType label type ∈ env.artifact.events := by
  cases hfind : registry.find? settings.backend with
  | none => simp [Artifact.generate, hfind] at h
  | some vocabulary =>
    cases hindex : Index.ofSchema s with
    | error e => simp [Artifact.generate, hfind, hindex] at h
    | ok index =>
      rw [Artifact.generate_eq hfind hindex] at h
      exact ⟨⟨index, settings, vocabulary, .ofSettings settings⟩, rfl, by simpa using h⟩

/-- In a loaded schema every reference that the walk of a field meets has a shape. In no environment
does the validator of a field miss a part, and generation never notes a type. -/
theorem Schema.shape?_ne_none_of_read? {text : String} {s : Schema}
    (h : Schema.read? text = some s) :
    (∀ d ∈ s.definitions, ∀ f ∈ d.fields,
      (∀ t, f.type.Meets t → t.shape? ≠ none) ∧
      ∀ env : Environment,
        (env.fieldExpr f).value = (env.fieldTree f).spell env ∧ (env.fieldTree f).Complete ∧
        ∀ label type, .unhandledType label type ∉ (env.fieldExpr f).events) ∧
    (∀ env : Environment, Index.ofSchema s = .ok env.index →
      ∀ label type, .unhandledType label type ∉ env.artifact.events) ∧
    ∀ registry settings label type,
      .unhandledType label type ∉ (Artifact.generate registry s settings).events := by
  have hsingle : ∀ d ∈ s.definitions, ∀ f ∈ d.fields, f.type.SingleNonNull :=
    fun d hd f hf => (Schema.wellFormed_of_read? h d hd f hf).1
  have hartifact (env : Environment) (hindex : Index.ofSchema s = .ok env.index)
      (label type : String) : .unhandledType label type ∉ env.artifact.events := by
    apply env.unhandledType_not_mem_artifact
    rwa [(Index.ofSchema_eq_ok hindex).1]
  refine ⟨?_, hartifact, ?_⟩
  · intro d hd f hf
    have hshape := TypeRef.singleNonNull_iff_shape?.mp (hsingle d hd f hf)
    refine ⟨hshape, fun env => ⟨(env.spell_fieldTree f).symm, ?_, ?_⟩⟩
    · exact (env.complete_tree_iff f f.type .none false).mpr (hsingle d hd f hf)
    · intro label type hevent
      obtain ⟨-, t, hmeets, hnone, -⟩ :=
        (env.unhandledType_mem_walk_iff f f.type .none false label type).mp hevent
      exact hshape t hmeets hnone
  · intro registry settings label type hevent
    obtain ⟨env, hindex, hmem⟩ := Artifact.unhandledType_mem_generate hevent
    exact hartifact env hindex label type hmem

/-- Blanks between the modifiers, and a field without its labels. -/
theorem Schema.shape?_ne_none_of_read?_page :
    let text := "\x7b\"definitions\": [\x7b\"name\": \"Page\", \"kind\": \"input_object\", " ++
      "\"fields\": [[\"rows\", \" [ [ Int ! ]\\t] ! \"]]\x7d]\x7d"
    let rows : Field :=
      { name := "rows", type := .nonNull (.list (.list (.nonNull (.named "Int")))) }
    let s : Schema := { definitions := [{ name := "Page", body := .inputObject [rows] }] }
    Schema.read? text = some s ∧ rows.type.Meets (.nonNull (.named "Int")) ∧
      (TypeRef.nonNull (.named "Int")).shape? ≠ none ∧
      ∀ registry settings label type,
        .unhandledType label type ∉ (Artifact.generate registry s settings).events := by
  intro text rows s
  let field : Json.Tree := .array [.string (some "rows"), .string (some " [ [ Int ! ]\t] ! ")]
  let page : Json.Tree := .object [(some "name", .string (some "Page")),
    (some "kind", .string (some "input_object")), (some "fields", .array [field])]
  have htree : Json.Tree.read? text = some (.object [(some "definitions", .array [page])]) := by
    subst text field page
    cbv
  have htype : TypeRef.read " [ [ Int ! ]\t] ! " = .ok rows.type := by decide +kernel
  have hfield (room : Nat) : Field.ofTree? room field = some rows := by
    show (TypeRef.read " [ [ Int ! ]\t] ! ").toOption.bind
      (fun type => some ({ name := "rows", type } : Field)) = _
    rw [htype]
    rfl
  have hpage : Definition.ofTree? (Json.nestingLimit - 2) page =
      some { name := "Page", body := .inputObject [rows] } := by
    show (([field].mapM (Field.ofTree? (Json.nestingLimit - 2 - 7))).map Body.inputObject).bind
      (fun body => some ({ name := "Page", body } : Definition)) = _
    simp [hfield]
  have hread : Schema.read? text = some s := by
    rw [Schema.read?, htree]
    show ([page].mapM (Definition.ofTree? (Json.nestingLimit - 2))).bind
      (fun definitions => some ({ definitions } : Schema)) = _
    simp [hpage, s]
  have hmeets : rows.type.Meets (.nonNull (.named "Int")) :=
    .head (Or.inr rfl) (.head (Or.inl rfl) (.single (Or.inl rfl)))
  have hrows : rows ∈ ({ name := "Page", body := .inputObject [rows] } : Definition).fields :=
    List.mem_singleton_self rows
  obtain ⟨hfields, -, hgenerate⟩ := shape?_ne_none_of_read? hread
  exact ⟨hread, hmeets, (hfields _ (List.mem_singleton_self _) rows hrows).1 _ hmeets, hgenerate⟩

end ValidatorGen
