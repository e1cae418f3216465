import ValidatorGen.Proofs.Artifact.Blocks

/-! What an emission depends on: how object validators and enumerations are declared, and the
validators of the fields where the definition is declared at all. -/
namespace ValidatorGen.Environment

/-- Two environments declare alike what has the same field validators. -/
structure DeclareAlike (env env' : Environment) : Prop where
  vocabulary : env.vocabulary = env'.vocabulary
  names : env.names = env'.names
  objectForm : env.settings.objectForm = env'.settings.objectForm
  enumsAsTypes : env.settings.enumsAsTypes = env'.settings.enumsAsTypes
  emitObjects : env.settings.emitObjects = env'.settings.emitObjects

variable {env env' : Environment}

theorem mapM_fieldEntry_congr {fields : List Field}
    (hfields : ∀ field ∈ fields, env.fieldExpr field = env'.fieldExpr field) :
    fields.mapM env.fieldEntry = fields.mapM env'.fieldEntry := by
  apply Logged.mapM_congr
  intro field hfield
  rw [fieldEntry, fieldEntry, hfields field hfield]

variable (h : DeclareAlike env env')

include h

theorem DeclareAlike.declareObject (name : String) (entries : List String) :
    env.declareObject name entries = env'.declareObject name entries := by
  simp only [Environment.declareObject, objectText, h.vocabulary, h.names, h.objectForm]

theorem DeclareAlike.declareEnum (name : String) (values : List String) :
    env.declareEnum name values = env'.declareEnum name values := by
  simp only [Environment.declareEnum, h.vocabulary, h.names, h.enumsAsTypes]

theorem DeclareAlike.declaration? {d : Definition}
    (hfields : env.settings.declares d.kind = true →
      ∀ field ∈ d.fields, env.fieldExpr field = env'.fieldExpr field) :
    env.declaration? d = env'.declaration? d := by
  obtain ⟨name, description, body⟩ := d
  cases body with
  | enumeration values => simp only [Environment.declaration?, h.declareEnum]
  | inputObject fields =>
    have hentries : fields.mapM env.fieldEntry = fields.mapM env'.fieldEntry :=
      mapM_fieldEntry_congr (hfields rfl)
    simp only [Environment.declaration?, hentries, h.declareObject]
  | object fields =>
    cases hemit : env.settings.emitObjects with
    | false => simp [Environment.declaration?, hemit, ← h.emitObjects]
    | true =>
      have hentries : fields.mapM env.fieldEntry = fields.mapM env'.fieldEntry :=
        mapM_fieldEntry_congr (hfields hemit)
      simp only [Environment.declaration?, hentries, h.declareObject, typenameEntry,
        h.vocabulary, ← h.emitObjects]
  | scalar => rfl

theorem DeclareAlike.emission? {d : Definition}
    (hfields : env.settings.declares d.kind = true →
      ∀ field ∈ d.fields, env.fieldExpr field = env'.fieldExpr field) :
    env.emission? d = env'.emission? d := by
  simp only [Environment.emission?, h.declaration? hfields, h.names, h.vocabulary]

/-- The whole module is the same if types are also imported from the same source. -/
theorem DeclareAlike.artifact (hindex : env.index = env'.index)
    (himport : env.settings.importFrom = env'.settings.importFrom)
    (hfields : ∀ field, env.fieldExpr field = env'.fieldExpr field) :
    env.artifact = env'.artifact := by
  have hemission : env.emission? = env'.emission? :=
    funext fun d => h.emission? fun _ field _ => hfields field
  have hprepend (names : ImportList) : env.prepend names = env'.prepend names := by
    rw [prepend, prepend, h.vocabulary, himport]
  have hcontent (emitted : List Emission) : env.content emitted = env'.content emitted := by
    rw [content, content, h.vocabulary]
  simp only [Environment.artifact, emissions, hindex, hemission, hprepend, hcontent]

end ValidatorGen.Environment
