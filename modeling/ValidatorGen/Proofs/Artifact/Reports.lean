import ValidatorGen.Proofs.Artifact.Blocks
import ValidatorGen.Proofs.Validator.Reports

/-! What is noted while a module is generated: the backend, then for each declared definition what
its fields note, in their order, and its emission. A field notes at most one thing, and generation
goes on after it. -/
namespace ValidatorGen

namespace Environment

open Logged

variable (env : Environment)

/-- The reports of a definition that is declared. -/
def reportsOf (d : Definition) : List Event :=
  (d.fields.flatMap fun field => (env.fieldExpr field).reports) ++
    [.emitted d.name (env.names.validatorName d.name) env.vocabulary.name]

@[simp] theorem reports_fieldEntry (field : Field) :
    (env.fieldEntry field).reports = (env.fieldExpr field).reports := by
  simp [fieldEntry]

/-- The fields of a definition are looked at only if it is declared. -/
theorem reports_declaration? (d : Definition) :
    (env.declaration? d).reports =
      if env.settings.declares d.kind then
        d.fields.flatMap fun field => (env.fieldExpr field).reports
      else [] := by
  obtain ⟨name, description, body⟩ := d
  cases body with
  | enumeration values => rfl
  | inputObject fields =>
    simp [declaration?, Settings.declares, Definition.kind, Body.kind, Definition.fields,
      Body.fields]
  | object fields =>
    cases hemit : env.settings.emitObjects <;>
      simp [declaration?, hemit, Settings.declares, Definition.kind, Body.kind, Definition.fields,
        Body.fields]
  | scalar => rfl

theorem reports_emission? (d : Definition) :
    (env.emission? d).reports =
      if env.settings.declares d.kind then env.reportsOf d else [] := by
  rw [emission?, reports_bind, value_declaration?, reports_declaration?]
  cases env.settings.declares d.kind with
  | false => rfl
  | true => simp [reportsOf, Event.isNoCall]

theorem reports_artifact : env.artifact.reports = env.declared.flatMap env.reportsOf := by
  have hemissions : env.emissions.reports =
      env.index.schema.definitions.flatMap fun d => (env.emission? d).reports := by
    simp [emissions]
  have hartifact : env.artifact.reports = env.emissions.reports := by
    simp [artifact]
  rw [hartifact, hemissions, declared, Schema.declared]
  -- Definitions that are not declared drop out on both sides.
  induction env.index.schema.definitions with
  | nil => rfl
  | cons d rest ih =>
    rw [List.flatMap_cons, ih, reports_emission?]
    cases hd : env.settings.declares d.kind <;> simp [hd]

end Environment

/-- Without a repeated name and with a backend that is registered, generation notes the backend and
goes on to the module. -/
theorem Artifact.generate_eq {registry : Registry} {s : Schema} {settings : Settings}
    {vocabulary : Vocabulary} (hfind : registry.find? settings.backend = some vocabulary)
    {index : Index} (hindex : Index.ofSchema s = .ok index) :
    let env : Environment := ⟨index, settings, vocabulary, .ofSettings settings⟩
    Artifact.generate registry s settings =
      Logged.note (.backendResolved vocabulary.name) >>= fun _ => Except.ok <$> env.artifact := by
  intro env
  simp only [Artifact.generate, hfind, hindex, map_eq_pure_bind, env]

/-- Apart from mapped arguments without a call, generation notes the backend, and for each declared
definition in order what its fields note and then its emission. A field notes its type if a non-null
modifier is doubled there, else its base name if nothing validates that, and else nothing. -/
theorem generation_reports {registry : Registry} {s : Schema} (hs : s.NamesDistinct)
    {settings : Settings} {vocabulary : Vocabulary}
    (hfind : registry.find? settings.backend = some vocabulary) :
    ∃ index, Index.ofSchema s = .ok index ∧
      let env : Environment := ⟨index, settings, vocabulary, .ofSettings settings⟩
      (Artifact.generate registry s settings).value = .ok env.artifact.value ∧
      (Artifact.generate registry s settings).reports =
        .backendResolved vocabulary.name :: (s.declared settings).flatMap (fun d =>
          (d.fields.flatMap fun field => (env.fieldExpr field).reports) ++
            [.emitted d.name (env.names.validatorName d.name) vocabulary.name]) ∧
      ∀ field : Field,
        (¬ field.type.SingleNonNull → ∃ doubled, field.type.doubled? = some doubled ∧
          (env.fieldExpr field).reports = [.unhandledType field.name doubled.text]) ∧
        (field.type.SingleNonNull → settings.LeavesOpen s field.type.baseName →
          (env.fieldExpr field).reports =
            [.unhandledScalar field.type.baseName vocabulary.name]) ∧
        (field.type.SingleNonNull → ¬ settings.LeavesOpen s field.type.baseName →
          (env.fieldExpr field).reports = []) := by
  obtain ⟨index, hindex⟩ := Index.exists_ofSchema hs
  refine ⟨index, hindex, ?_⟩
  intro env
  have henv : Index.ofSchema s = .ok env.index := hindex
  have hgenerate := Artifact.generate_eq hfind hindex
  refine ⟨by rw [hgenerate]; rfl, ?_, ?_⟩
  · have hreports : (Artifact.generate registry s settings).reports =
        .backendResolved vocabulary.name :: env.artifact.reports := by
      simp [hgenerate, Event.isNoCall, env]
    rw [hreports, env.reports_artifact, Environment.declared_of_ofSchema henv]
    rfl
  · intro field
    refine ⟨?_, ?_, ?_⟩
    · intro hdoubled
      obtain ⟨doubled, hsome⟩ :=
        Option.ne_none_iff_exists'.mp (mt TypeRef.doubled?_eq_none_iff.mp hdoubled)
      exact ⟨doubled, hsome, env.reports_fieldExpr_of_doubled field hsome⟩
    · intro hsingle hopen
      exact (env.reports_fieldExpr_of_singleNonNull field hsingle).trans
        (Environment.reports_reference_of_leavesOpen henv hs hopen)
    · intro hsingle hopen
      exact (env.reports_fieldExpr_of_singleNonNull field hsingle).trans
        (Environment.reports_reference_of_not_leavesOpen henv hs hopen)

/-- A doubled modifier inside a list, a scalar that nothing validates, and an object with the same
scalar that is left out. -/
theorem generation_reports_page :
    let total : Field := { name := "total", type := .list (.nonNull (.nonNull (.named "Int"))) }
    let since : Field := { name := "since", type := .list (.named "Date") }
    let size : Field := { name := "size", type := .nonNull (.named "Int") }
    let date : Definition := { name := "Date", body := .scalar }
    let page : Definition := { name := "page", body := .inputObject [total, since, size] }
    let user : Definition := { name := "User", body := .object [since] }
    let s : Schema := { definitions := [date, page, user] }
    let settings : Settings := { backend := "yup", emitObjects := false }
    let registry : Registry := {}
    s.NamesDistinct ∧ registry.find? settings.backend = some yup ∧
      ¬ total.type.SingleNonNull ∧ since.type.SingleNonNull ∧ settings.LeavesOpen s "Date" ∧
      size.type.SingleNonNull ∧ ¬ settings.LeavesOpen s "Int" ∧
      (Artifact.generate registry s settings).reports =
        [.backendResolved "yup", .unhandledType "total" "Int!!", .unhandledScalar "Date" "yup",
          .emitted "page" "PageSchema" "yup"] := by
  intro total since size date page user s settings registry
  have hs : s.NamesDistinct := by simp [Schema.NamesDistinct, s, date, page, user]
  have hfind : registry.find? settings.backend = some yup := rfl
  have htotal : ¬ total.type.SingleNonNull := by decide
  have hsince : since.type.SingleNonNull := trivial
  have hsize : size.type.SingleNonNull := by decide
  have hdate : settings.LeavesOpen s "Date" :=
    { undeclared := by simp [s, date, page, user, Definition.kind, Body.kind]
      schema := rfl
      primitive := by decide }
  have hint : ¬ settings.LeavesOpen s "Int" := fun h => by
    have := h.primitive
    revert this
    decide
  obtain ⟨index, -, -, hreports, hfields⟩ := generation_reports hs hfind
  obtain ⟨doubled, hdoubled, htotalReports⟩ := (hfields total).1 htotal
  obtain rfl : TypeRef.nonNull (.nonNull (.named "Int")) = doubled := Option.some.inj hdoubled
  have hsinceReports := (hfields since).2.1 hsince hdate
  have hsizeReports := (hfields size).2.2 hsize hint
  have hname : (NamingScheme.ofSettings settings).validatorName "page" = "PageSchema" := by decide
  refine ⟨hs, hfind, htotal, hsince, hdate, hsize, hint, hreports.trans ?_⟩
  have hdeclared : s.declared settings = [page] := rfl
  have hpage : page.fields = [total, since, size] := rfl
  rw [hdeclared, List.flatMap_singleton, hpage]
  simp only [List.flatMap_cons, List.flatMap_nil, htotalReports, hsinceReports, hsizeReports, page,
    hname]
  rfl

theorem Environment.warnings_artifact (env : Environment) :
    env.artifact.warnings = env.declared.flatMap fun d =>
      d.fields.flatMap fun field => (env.fieldExpr field).warnings := by
  have hreports (d : Definition) : (env.reportsOf d).filter (·.level = .warn) =
      d.fields.flatMap fun field => (env.fieldExpr field).warnings := by
    have hemitted : [Event.emitted d.name (env.names.validatorName d.name)
        env.vocabulary.name].filter (·.level = .warn) = [] := rfl
    rw [reportsOf, List.filter_append, hemitted, List.append_nil, List.filter_flatMap]
    simp only [Logged.warnings_eq_filter_reports]
  simp only [Logged.warnings_eq_filter_reports, reports_artifact, List.filter_flatMap, hreports]

/-- The warnings of a generation are those of the fields of declared definitions, in order. A field
gives one warning for a doubled modifier or for a base name that nothing validates, with what it is
about, and else none. All other events are for debugging. -/
theorem generation_warnings {registry : Registry} {s : Schema} (hs : s.NamesDistinct)
    {settings : Settings} {vocabulary : Vocabulary}
    (hfind : registry.find? settings.backend = some vocabulary) :
    ∃ index, Index.ofSchema s = .ok index ∧
      let env : Environment := ⟨index, settings, vocabulary, .ofSettings settings⟩
      let run := Artifact.generate registry s settings
      let said (field : Field) := (env.fieldExpr field).warnings.map fun e => (e.message, e.fields)
      run.warnings = (s.declared settings).flatMap (fun d =>
        d.fields.flatMap fun field => (env.fieldExpr field).warnings) ∧
      (∀ event ∈ run.events, event ∉ run.warnings → event.level = .debug) ∧
      ∀ field : Field,
        (∀ doubled, field.type.doubled? = some doubled →
          said field = [("unhandled type expression",
            [("field", field.name), ("ty", doubled.text)])]) ∧
        (field.type.SingleNonNull → settings.LeavesOpen s field.type.baseName →
          said field = [("unhandled scalar, accepting any defined non-null value",
            [("scalar", field.type.baseName), ("backend", vocabulary.name)])]) ∧
        (field.type.SingleNonNull → ¬ settings.LeavesOpen s field.type.baseName →
          said field = []) := by
  obtain ⟨index, hindex⟩ := Index.exists_ofSchema hs
  refine ⟨index, hindex, ?_⟩
  intro env run said
  have henv : Index.ofSchema s = .ok env.index := hindex
  refine ⟨?_, ?_, ?_⟩
  · have hrun : run.warnings = env.artifact.warnings := by
      simp [run, Artifact.generate_eq hfind hindex, Logged.warnings, Event.level, env]
    rw [hrun, env.warnings_artifact, Environment.declared_of_ofSchema henv]
  · intro event hevent hquiet
    have hlevel : event.level ≠ .warn := fun hwarn =>
      hquiet (List.mem_filter.mpr ⟨hevent, by simpa using hwarn⟩)
    cases h : event.level with
    | warn => exact absurd h hlevel
    | debug => rfl
  · intro field
    have hwarnings := env.warnings_fieldExpr field
    refine ⟨?_, ?_, ?_⟩
    · intro doubled hdoubled
      simp only [said, hwarnings, env.reports_fieldExpr_of_doubled field hdoubled]
      rfl
    · intro hsingle hopen
      simp only [said, hwarnings, env.reports_fieldExpr_of_singleNonNull field hsingle,
        Environment.reports_reference_of_leavesOpen henv hs hopen]
      rfl
    · intro hsingle hopen
      simp only [said, hwarnings, env.reports_fieldExpr_of_singleNonNull field hsingle,
        Environment.reports_reference_of_not_leavesOpen henv hs hopen]
      rfl

end ValidatorGen
