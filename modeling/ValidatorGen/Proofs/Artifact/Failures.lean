import ValidatorGen.Proofs.Artifact.Reports

/-! How generation ends. An unknown backend is reported before the schema is looked at, then the
first name that is met again; with neither of them there is a module. -/
namespace ValidatorGen

/-! Backends by name. -/

def Registry.Registers (r : Registry) (name : String) : Prop :=
  ∃ vocabulary ∈ r.backends, vocabulary.name = name

/-- The vocabulary is the first one that is registered by this name. -/
def Registry.FirstOfName (r : Registry) (name : String) (vocabulary : Vocabulary) : Prop :=
  ∃ earlier later, r.backends = earlier ++ vocabulary :: later ∧ vocabulary.name = name ∧
    ∀ other ∈ earlier, other.name ≠ name

namespace Registry

variable {r : Registry} {name : String}

theorem find?_eq_none_iff : r.find? name = none ↔ ¬ r.Registers name := by
  simp [find?, Registers]

theorem find?_eq_some_iff {vocabulary : Vocabulary} :
    r.find? name = some vocabulary ↔ r.FirstOfName name vocabulary := by
  simp only [find?, FirstOfName, List.find?_eq_some_iff_append, beq_iff_eq, Bool.not_eq_true',
    beq_eq_false_iff_ne]
  constructor
  · rintro ⟨hname, earlier, later, hsplit, hother⟩
    exact ⟨earlier, later, hsplit, hname, hother⟩
  · rintro ⟨earlier, later, hsplit, hname, hother⟩
    exact ⟨hname, earlier, later, hsplit, hother⟩

theorem registers_iff : r.Registers name ↔ ∃ vocabulary, r.FirstOfName name vocabulary := by
  rw [← not_iff_not, ← find?_eq_none_iff, Option.eq_none_iff_forall_ne_some, not_exists]
  exact forall_congr' fun vocabulary => find?_eq_some_iff.not

end Registry

/-! The outcomes. -/

/-- How generation may end, and when. -/
inductive Outcome (registry : Registry) (s : Schema) (settings : Settings) :
    Except GenerationError Artifact → Prop
  | unknownBackend (hbackend : ¬ registry.Registers settings.backend) :
      Outcome registry s settings (.error (.unknownBackend settings.backend))
  | duplicateDefinition {name : String} (hbackend : registry.Registers settings.backend)
      (hrepeats : s.FirstRepeats name) :
      Outcome registry s settings (.error (.duplicateDefinition ⟨name⟩))
  | generated {vocabulary : Vocabulary} {index : Index}
      (hfirst : registry.FirstOfName settings.backend vocabulary)
      (hindex : Index.ofSchema s = .ok index) :
      Outcome registry s settings (.ok (Environment.artifact ⟨index, settings, vocabulary,
        .standard settings.typesPrefix settings.typesSuffix⟩).value)

namespace Artifact

variable {registry : Registry} {s : Schema} {settings : Settings}

theorem value_generate_of_not_registers (h : ¬ registry.Registers settings.backend) :
    (generate registry s settings).value = .error (.unknownBackend settings.backend) := by
  rw [generate, Registry.find?_eq_none_iff.mpr h]
  rfl

theorem value_generate_of_firstRepeats (hbackend : registry.Registers settings.backend)
    {name : String} (h : s.FirstRepeats name) :
    (generate registry s settings).value = .error (.duplicateDefinition ⟨name⟩) := by
  obtain ⟨vocabulary, hfirst⟩ := Registry.registers_iff.mp hbackend
  rw [generate, Registry.find?_eq_some_iff.mpr hfirst, Index.ofSchema_of_firstRepeats h]
  rfl

theorem value_generate_of_ofSchema {vocabulary : Vocabulary} {index : Index}
    (hfirst : registry.FirstOfName settings.backend vocabulary)
    (hindex : Index.ofSchema s = .ok index) :
    (generate registry s settings).value =
      .ok (Environment.artifact ⟨index, settings, vocabulary,
        .standard settings.typesPrefix settings.typesSuffix⟩).value := by
  rw [generate_eq (Registry.find?_eq_some_iff.mpr hfirst) hindex]
  rfl

theorem outcome_generate (registry : Registry) (s : Schema) (settings : Settings) :
    Outcome registry s settings (generate registry s settings).value := by
  by_cases hbackend : registry.Registers settings.backend
  · rcases s.namesDistinct_or_firstRepeats with hdistinct | ⟨name, hrepeats⟩
    · obtain ⟨vocabulary, hfirst⟩ := Registry.registers_iff.mp hbackend
      obtain ⟨index, hindex⟩ := Index.exists_ofSchema hdistinct
      rw [value_generate_of_ofSchema hfirst hindex]
      exact .generated hfirst hindex
    · rw [value_generate_of_firstRepeats hbackend hrepeats]
      exact .duplicateDefinition hbackend hrepeats
  · rw [value_generate_of_not_registers hbackend]
    exact .unknownBackend hbackend

theorem value_generate_eq_iff {result : Except GenerationError Artifact} :
    (generate registry s settings).value = result ↔ Outcome registry s settings result := by
  constructor
  · rintro rfl
    exact outcome_generate registry s settings
  · intro h
    cases h with
    | unknownBackend hbackend => exact value_generate_of_not_registers hbackend
    | duplicateDefinition hbackend hrepeats =>
      exact value_generate_of_firstRepeats hbackend hrepeats
    | generated hfirst hindex => exact value_generate_of_ofSchema hfirst hindex

end Artifact

namespace Outcome

variable {registry : Registry} {s : Schema} {settings : Settings}

theorem unknownBackend_iff {name : String} :
    Outcome registry s settings (.error (.unknownBackend name)) ↔
      name = settings.backend ∧ ¬ registry.Registers settings.backend := by
  constructor
  · intro h
    cases h with | unknownBackend hbackend => exact ⟨rfl, hbackend⟩
  · rintro ⟨rfl, hbackend⟩
    exact .unknownBackend hbackend

theorem duplicateDefinition_iff {e : DuplicateDefinition} :
    Outcome registry s settings (.error (.duplicateDefinition e)) ↔
      registry.Registers settings.backend ∧ s.FirstRepeats e.name := by
  constructor
  · intro h
    cases h with | duplicateDefinition hbackend hrepeats => exact ⟨hbackend, hrepeats⟩
  · rintro ⟨hbackend, hrepeats⟩
    exact .duplicateDefinition hbackend hrepeats

theorem ok_iff {artifact : Artifact} :
    Outcome registry s settings (.ok artifact) ↔
      ∃ vocabulary index, registry.FirstOfName settings.backend vocabulary ∧
        Index.ofSchema s = .ok index ∧
        artifact = (Environment.artifact ⟨index, settings, vocabulary,
          .standard settings.typesPrefix settings.typesSuffix⟩).value := by
  constructor
  · intro h
    cases h with | generated hfirst hindex => exact ⟨_, _, hfirst, hindex, rfl⟩
  · rintro ⟨vocabulary, index, hfirst, hindex, rfl⟩
    exact .generated hfirst hindex

theorem exists_duplicateDefinition_iff :
    (∃ e, Outcome registry s settings (.error (.duplicateDefinition e))) ↔
      registry.Registers settings.backend ∧ ¬ s.NamesDistinct := by
  simp only [duplicateDefinition_iff, Schema.namesDistinct_iff, not_forall_not]
  constructor
  · rintro ⟨e, hbackend, hrepeats⟩
    exact ⟨hbackend, e.name, hrepeats⟩
  · rintro ⟨hbackend, name, hrepeats⟩
    exact ⟨⟨name⟩, hbackend, hrepeats⟩

theorem exists_ok_iff :
    (∃ artifact, Outcome registry s settings (.ok artifact)) ↔
      registry.Registers settings.backend ∧ s.NamesDistinct := by
  constructor
  · rintro ⟨artifact, hartifact⟩
    obtain ⟨vocabulary, index, hfirst, hindex, -⟩ := ok_iff.mp hartifact
    exact ⟨Registry.registers_iff.mpr ⟨_, hfirst⟩, Index.namesDistinct_of_ofSchema hindex⟩
  · rintro ⟨hbackend, hdistinct⟩
    obtain ⟨vocabulary, hfirst⟩ := Registry.registers_iff.mp hbackend
    obtain ⟨index, hindex⟩ := Index.exists_ofSchema hdistinct
    exact ⟨_, .generated hfirst hindex⟩

end Outcome

/-- Whatever the schema, a backend that is not registered is the error. Otherwise the first repeated
name is, whatever the definitions that have it; and without a repeated name there is the module that
the first backend of that name makes, with the naming of the settings. -/
theorem Artifact.generate_outcomes (registry : Registry) (s : Schema) (settings : Settings) :
    let result := (generate registry s settings).value
    (∀ name, result = .error (.unknownBackend name) ↔
      name = settings.backend ∧ ¬ registry.Registers settings.backend) ∧
    (∀ e, result = .error (.duplicateDefinition e) ↔
      registry.Registers settings.backend ∧ s.FirstRepeats e.name) ∧
    ((∃ e, result = .error (.duplicateDefinition e)) ↔
      registry.Registers settings.backend ∧ ¬ s.NamesDistinct) ∧
    (∀ artifact, result = .ok artifact ↔
      ∃ vocabulary index, registry.FirstOfName settings.backend vocabulary ∧
        Index.ofSchema s = .ok index ∧
        artifact = (Environment.artifact ⟨index, settings, vocabulary,
          .standard settings.typesPrefix settings.typesSuffix⟩).value) ∧
    ((∃ artifact, result = .ok artifact) ↔
      registry.Registers settings.backend ∧ s.NamesDistinct) := by
  intro result
  simp only [result, value_generate_eq_iff]
  exact ⟨fun _ => Outcome.unknownBackend_iff, fun _ => Outcome.duplicateDefinition_iff,
    Outcome.exists_duplicateDefinition_iff, fun _ => Outcome.ok_iff, Outcome.exists_ok_iff⟩

/-- The name that is met again first is reported, though another one stands before it. -/
example :
    let node : Definition := { name := "Node", body := .scalar }
    let role : Definition := { name := "Role", body := .enumeration ["ADMIN"] }
    let registry : Registry := {}
    (Artifact.generate registry ⟨[node, role, role, node]⟩ { backend := "zod" }).value =
      .error (.duplicateDefinition ⟨"Role"⟩) := by
  rfl

end ValidatorGen
