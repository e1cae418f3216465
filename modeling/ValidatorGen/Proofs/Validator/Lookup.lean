import ValidatorGen.Proofs.Schema.Kinds

/-! Looking up names. The index finds what a search through the definitions finds, and a name is that
of an input object for the index exactly if references to it are deferred. -/
namespace ValidatorGen

theorem Schema.NamesDistinct.filter_eq_singleton {s : Schema} (h : s.NamesDistinct)
    {d : Definition} (hd : d ∈ s.definitions) :
    s.definitions.filter (·.name == d.name) = [d] := by
  have hcount : (s.definitions.filter (·.name == d.name)).length = 1 := by
    have hname := List.count_eq_one_of_mem h (List.mem_map_of_mem hd)
    rwa [List.count_eq_countP, List.countP_map, List.countP_eq_length_filter] at hname
  obtain ⟨e, he⟩ := List.length_eq_one_iff.mp hcount
  have hmem : d ∈ s.definitions.filter (·.name == d.name) :=
    List.mem_filter.mpr ⟨hd, beq_self_eq_true d.name⟩
  rw [he, List.mem_singleton] at hmem
  rw [he, hmem]

theorem Definition.kind_eq_inputObject_iff {d : Definition} :
    d.kind = .inputObject ↔ ∃ fields, d.body = .inputObject fields := by
  obtain ⟨name, description, body⟩ := d
  cases body <;> simp [kind, Body.kind]

namespace Index

variable {s : Schema} {index : Index}

theorem get?_eq_some_iff (h : ofSchema s = .ok index) {name : String} {d : Definition} :
    index.get? name = some d ↔ d ∈ s.definitions ∧ d.name = name := by
  constructor
  · intro hfound
    rw [get?_of_ofSchema h] at hfound
    exact ⟨List.mem_of_find?_eq_some hfound, by simpa using List.find?_some hfound⟩
  · rintro ⟨hd, rfl⟩
    exact get?_of_mem h (namesDistinct_of_ofSchema h) hd

theorem get?_eq_none_iff (h : ofSchema s = .ok index) {name : String} :
    index.get? name = none ↔ ∀ d ∈ s.definitions, d.name ≠ name := by
  rw [get?_of_ofSchema h, List.find?_eq_none]
  simp

theorem isInputObject_eq_true_iff (h : ofSchema s = .ok index) {name : String} :
    index.isInputObject name = true ↔
      ∃ d ∈ s.definitions, d.name = name ∧ ∃ fields, d.body = .inputObject fields := by
  simp only [isInputObject, kindOf?, beq_iff_eq, Option.map_eq_some_iff, get?_eq_some_iff h,
    Definition.kind_eq_inputObject_iff, and_assoc]

end Index

/-- A name without a definition refers to a scalar, which is no input object. -/
theorem Environment.isDeferred_reference (env : Environment) (name : String) :
    (env.reference name).value.isDeferred = env.index.isInputObject name := by
  rw [Reference.isDeferred, kind_reference, kindOf, Index.isInputObject]
  cases env.index.kindOf? name <;> rfl

/-- The index finds a definition by its name exactly if the schema has it, and no second one by that
name. It holds a name for an input object exactly if the schema defines it as one, which is when every
reference to it is deferred, whatever the settings, the backend and the naming. -/
theorem Index.agrees_with_search {s : Schema} {index : Index} (h : ofSchema s = .ok index)
    (name : String) :
    index.get? name = s.definitions.find? (·.name == name) ∧
    (∀ d, index.get? name = some d ↔ d ∈ s.definitions ∧ d.name = name) ∧
    (∀ d, index.get? name = some d → s.definitions.filter (·.name == name) = [d]) ∧
    (index.get? name = none ↔ ∀ d ∈ s.definitions, d.name ≠ name) ∧
    (∀ d ∈ s.definitions, index.get? d.name = some d) ∧
    (index.isInputObject name = true ↔
      ∃ d ∈ s.definitions, d.name = name ∧ ∃ fields, d.body = .inputObject fields) ∧
    (∀ env : Environment, env.index = index →
      ((env.reference name).value.isDeferred = true ↔ index.isInputObject name = true)) := by
  have hs := namesDistinct_of_ofSchema h
  refine ⟨get?_of_ofSchema h name, fun d => get?_eq_some_iff h, ?_, get?_eq_none_iff h,
    fun d hd => get?_of_mem h hs hd, isInputObject_eq_true_iff h, ?_⟩
  · intro d hfound
    obtain ⟨hd, rfl⟩ := (get?_eq_some_iff h).mp hfound
    exact hs.filter_eq_singleton hd
  · rintro env rfl
    rw [env.isDeferred_reference]

/-- Names that differ in their first letter only are different names. -/
theorem Index.agrees_with_search_filter :
    let page : Definition := { name := "Page", body := .object [] }
    let filter : Definition := { name := "Filter", body := .inputObject [] }
    let s : Schema := { definitions := [page, filter] }
    ∃ index, ofSchema s = .ok index ∧ index.get? "Filter" = some filter ∧
      index.isInputObject "Filter" = true ∧ index.isInputObject "Page" = false ∧
      index.get? "filter" = none := by
  intro page filter s
  have hs : s.NamesDistinct := by simp [Schema.NamesDistinct, s, page, filter]
  obtain ⟨index, hindex⟩ := exists_ofSchema hs
  have hfilter := agrees_with_search hindex "Filter"
  have hpage := agrees_with_search hindex "Page"
  have hmissing := agrees_with_search hindex "filter"
  refine ⟨index, hindex, ?_, ?_, ?_, ?_⟩
  · exact (hfilter.2.1 filter).mpr ⟨by simp [s], rfl⟩
  · exact hfilter.2.2.2.2.2.1.mpr ⟨filter, by simp [s], rfl, [], rfl⟩
  · rw [← Bool.not_eq_true, hpage.2.2.2.2.2.1]
    simp [s, page, filter]
  · exact hmissing.2.2.2.1.mpr (by simp [s, page, filter])

end ValidatorGen
