import ValidatorGen.Proofs.Artifact.Failures

/-! Registries that vocabularies are registered in and that are searched, in any order. The first use
enters the built-in vocabularies whatever it is, so they come first and keep their names, and no
registration changes what is generated with them. -/
namespace ValidatorGen

namespace Registry

/-- How a registry came about, starting from a fresh one. -/
inductive History
  | fresh
  | register (before : History) (v : Vocabulary)
  /-- The registry is listed or searched. -/
  | read (before : History)

namespace History

def registry : History → Registry
  | fresh => {}
  | register before v => before.registry.register v
  | read before => before.registry.prepare

/-- The custom vocabularies in order of registration. -/
def custom : History → List Vocabulary
  | fresh => []
  | register before v => before.custom ++ [v]
  | read before => before.custom

theorem backends_registry (h : History) : h.registry.backends = builtins ++ h.custom := by
  induction h with
  | fresh => rfl
  | register before v ih => rw [registry, custom, backends_register, ih, List.append_assoc]
  | read before ih => rw [registry, custom, backends_prepare, ih]

end History

theorem find?_name_of_mem_builtins {v : Vocabulary} (hv : v ∈ builtins) (more : List Vocabulary) :
    (builtins ++ more).find? (·.name == v.name) = some v := by
  have hfirst : builtins.find? (·.name == v.name) = some v := by
    rcases mem_builtins.mp hv with rfl | rfl | rfl | rfl <;> rfl
  rw [List.find?_append, hfirst, Option.some_or]

theorem History.find?_registry {v : Vocabulary} (hv : v ∈ builtins) (h : History) :
    h.registry.find? v.name = some v := by
  rw [find?, h.backends_registry, find?_name_of_mem_builtins hv]

end Registry

/-- All that a registry is asked for is the backend of the settings. -/
theorem Artifact.generate_congr {registry other : Registry} {settings : Settings}
    (h : registry.find? settings.backend = other.find? settings.backend) (s : Schema) :
    generate registry s settings = generate other s settings := by
  rw [generate, generate, h]

/-- Whatever is registered under whatever names, and whenever the registry is first read, it has the
built-in vocabularies and then the custom ones in order of registration. A name finds the first of
them that has it, which for the name of a built-in one is this one, so what is generated with it is
what a fresh registry gives. -/
theorem Registry.History.builtins_not_shadowed (h : History) :
    h.registry.backends = [zod, myzod, valibot, yup] ++ h.custom ∧
    h.registry.names = ["zod", "myzod", "valibot", "yup"] ++ h.custom.map (·.name) ∧
    (∀ name v, h.registry.find? name = some v ↔ h.registry.FirstOfName name v) ∧
    (∀ name, h.registry.find? name = none ↔ ∀ v ∈ h.registry.backends, v.name ≠ name) ∧
    (∀ v ∈ builtins, h.registry.find? v.name = some v) ∧
    ∀ (s : Schema) (settings : Settings), settings.backend ∈ builtins.map (·.name) →
      Artifact.generate h.registry s settings = Artifact.generate {} s settings := by
  have hbackends : h.registry.backends = [zod, myzod, valibot, yup] ++ h.custom :=
    h.backends_registry
  refine ⟨hbackends, ?_, fun _ _ => find?_eq_some_iff, ?_, fun v hv => h.find?_registry hv, ?_⟩
  · rw [names, hbackends, List.map_append]
    rfl
  · intro name
    rw [find?_eq_none_iff, Registers]
    simp
  · intro s settings hbackend
    obtain ⟨v, hv, hname⟩ := List.mem_map.mp hbackend
    have hfresh : ({} : Registry).find? v.name = some v := fresh.find?_registry hv
    apply Artifact.generate_congr
    rw [← hname, h.find?_registry hv, hfresh]

/-- Two custom vocabularies of one name and one with the name of a built-in one, which is never
found. -/
theorem Registry.History.builtins_not_shadowed_arrow :
    let arrow : Vocabulary := { yup with name := "arrow" }
    let second : Vocabulary := { myzod with name := "arrow" }
    let shadow : Vocabulary := { arrow with name := "zod" }
    let h : History := (((History.fresh.register shadow).register arrow).read).register second
    let settings : Settings := { backend := "zod" }
    h.registry.names = ["zod", "myzod", "valibot", "yup", "zod", "arrow", "arrow"] ∧
      zod ∈ builtins ∧ h.registry.find? "zod" = some zod ∧
      h.registry.find? "arrow" = some arrow ∧ h.registry.find? "joi" = none ∧
      settings.backend ∈ builtins.map (·.name) ∧
      Artifact.generate h.registry {} settings = Artifact.generate {} {} settings := by
  intro arrow second shadow h settings
  have hzod : zod ∈ builtins := List.mem_cons_self
  have hbackend : settings.backend ∈ builtins.map (·.name) := List.mem_map_of_mem hzod
  obtain ⟨hbackends, hnames, hfirst, hnone, hbuiltin, hgenerate⟩ := builtins_not_shadowed h
  refine ⟨hnames, hzod, hbuiltin zod hzod, ?_, ?_, hbackend, hgenerate {} settings hbackend⟩
  · refine (hfirst "arrow" arrow).mpr ⟨[zod, myzod, valibot, yup, shadow], [second], ?_, rfl, ?_⟩
    · exact hbackends
    · simp [zod, myzod, valibot, yup, shadow]
  · rw [hnone, hbackends]
    simp [zod, myzod, valibot, yup, h, History.custom, shadow, arrow, second]

end ValidatorGen
