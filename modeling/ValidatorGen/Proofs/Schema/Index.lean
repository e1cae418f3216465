import Mathlib.Data.List.Induction
import Mathlib.Data.List.Nodup
import ValidatorGen.Schema.Index

/-! A schema without a repeated name has an index, and the index finds what a search through the
definitions finds. For any other schema the first name that is repeated is the error. -/
namespace ValidatorGen

def Schema.NamesDistinct (s : Schema) : Prop :=
  (s.definitions.map Definition.name).Nodup

namespace Index

/-- Looking up a name after all insertions: the old entries first, then the inserted definitions. -/
theorem getElem?_of_insertAll {byName all : Std.TreeMap String Definition}
    {definitions : List Definition} (h : insertAll byName definitions = .ok all) (name : String) :
    all[name]? = byName[name]?.or (definitions.find? (·.name == name)) := by
  induction definitions generalizing byName with
  | nil =>
    cases h
    simp
  | cons d rest ih =>
    rw [insertAll] at h
    split at h
    · cases h
    · next hnew =>
      rw [ih h, Std.TreeMap.getElem?_insert, List.find?_cons]
      by_cases hname : d.name = name
      · subst hname
        have hnone : byName[d.name]? = none := by simpa using hnew
        simp [hnone]
      · have hbeq : (d.name == name) = false := by simpa using hname
        simp [hname, hbeq]

theorem exists_insertAll (byName : Std.TreeMap String Definition) {definitions : List Definition}
    (hdistinct : (definitions.map Definition.name).Nodup)
    (hnew : ∀ d ∈ definitions, d.name ∉ byName) :
    ∃ all, insertAll byName definitions = .ok all := by
  induction definitions generalizing byName with
  | nil => exact ⟨byName, rfl⟩
  | cons d rest ih =>
    obtain ⟨hd, hrest⟩ := List.nodup_cons.mp hdistinct
    have hfresh : ¬ byName.contains d.name = true := hnew d (by simp)
    rw [insertAll, if_neg hfresh]
    apply ih _ hrest
    intro e he
    have hne : d.name ≠ e.name := by
      intro heq
      exact hd (heq ▸ List.mem_map_of_mem he)
    simp [Std.TreeMap.mem_insert, hne, hnew e (by simp [he])]

theorem exists_ofSchema {schema : Schema} (h : schema.NamesDistinct) :
    ∃ index, ofSchema schema = .ok index := by
  obtain ⟨all, hall⟩ := exists_insertAll ∅ h (by simp)
  exact ⟨⟨schema, all⟩, by rw [ofSchema, hall]; rfl⟩

theorem ofSchema_eq_ok {schema : Schema} {index : Index} (h : ofSchema schema = .ok index) :
    index.schema = schema ∧ insertAll ∅ schema.definitions = .ok index.byName := by
  rw [ofSchema] at h
  cases hall : insertAll ∅ schema.definitions with
  | error e => simp [hall, Except.map] at h
  | ok all =>
    simp only [hall, Except.map, Except.ok.injEq] at h
    subst h
    exact ⟨rfl, rfl⟩

theorem get?_of_ofSchema {schema : Schema} {index : Index} (h : ofSchema schema = .ok index)
    (name : String) : index.get? name = schema.definitions.find? (·.name == name) := by
  rw [get?, getElem?_of_insertAll (ofSchema_eq_ok h).2]
  simp

end Index

theorem Schema.NamesDistinct.find?_eq_some {s : Schema} (h : s.NamesDistinct) {d : Definition}
    (hd : d ∈ s.definitions) : s.definitions.find? (·.name == d.name) = some d := by
  obtain ⟨definitions⟩ := s
  simp only [NamesDistinct] at h hd ⊢
  induction definitions with
  | nil => cases hd
  | cons e rest ih =>
    obtain ⟨he, hrest⟩ := List.nodup_cons.mp h
    rw [List.find?_cons]
    rcases List.mem_cons.mp hd with rfl | hd
    · simp
    · have hne : e.name ≠ d.name := by
        intro heq
        exact he (heq ▸ List.mem_map_of_mem hd)
      have hbeq : (e.name == d.name) = false := by simpa using hne
      rw [hbeq]
      exact ih hrest hd

theorem Index.get?_of_mem {s : Schema} {index : Index} (hindex : ofSchema s = .ok index)
    (hs : s.NamesDistinct) {d : Definition} (hd : d ∈ s.definitions) :
    index.get? d.name = some d :=
  (get?_of_ofSchema hindex d.name).trans (hs.find?_eq_some hd)

/-! Repeated names. -/

/-- The name of the first definition that has the name of an earlier one: the definitions before it
have distinct names, and its own is among them. -/
def Schema.FirstRepeats (s : Schema) (name : String) : Prop :=
  ∃ before d after, s.definitions = before ++ d :: after ∧ d.name = name ∧
    name ∈ before.map Definition.name ∧ (before.map Definition.name).Nodup

theorem Schema.namesDistinct_or_firstRepeats (s : Schema) :
    s.NamesDistinct ∨ ∃ name, s.FirstRepeats name := by
  obtain ⟨definitions⟩ := s
  induction definitions using List.reverseRecOn with
  | nil => exact .inl List.nodup_nil
  | append_singleton before d ih =>
    rcases ih with hdistinct | ⟨name, seen, e, after, hsplit, hname, hmem, hseen⟩
    · by_cases hd : d.name ∈ before.map Definition.name
      · exact .inr ⟨d.name, before, d, [], rfl, rfl, hd, hdistinct⟩
      · refine .inl ?_
        rw [NamesDistinct, List.map_append, List.map_singleton, List.nodup_append']
        exact ⟨hdistinct, List.nodup_singleton _, List.disjoint_singleton.mpr hd⟩
    · have hbefore : before = seen ++ e :: after := hsplit
      refine .inr ⟨name, seen, e, after ++ [d], ?_, hname, hmem, hseen⟩
      rw [hbefore, List.append_assoc, List.cons_append]

namespace Index

theorem insertAll_append {byName all : Std.TreeMap String Definition} {before : List Definition}
    (h : insertAll byName before = .ok all) (rest : List Definition) :
    insertAll byName (before ++ rest) = insertAll all rest := by
  induction before generalizing byName with
  | nil =>
    cases h
    rfl
  | cons d before ih =>
    rw [insertAll] at h
    rw [List.cons_append, insertAll]
    split at h
    · cases h
    · next hnew =>
      rw [if_neg hnew]
      exact ih h

/-- The definitions before the first repeated name are all inserted, and the next one is refused. -/
theorem ofSchema_of_firstRepeats {s : Schema} {name : String} (h : s.FirstRepeats name) :
    ofSchema s = .error ⟨name⟩ := by
  obtain ⟨before, d, after, hsplit, rfl, hmem, hbefore⟩ := h
  obtain ⟨seen, hseen⟩ := exists_insertAll ∅ hbefore (by simp)
  have hcontains : seen.contains d.name = true := by
    obtain ⟨e, he, hname⟩ := List.mem_map.mp hmem
    rw [Std.TreeMap.contains_eq_isSome_getElem?, getElem?_of_insertAll hseen,
      Std.TreeMap.getElem?_emptyc, Option.none_or]
    exact List.find?_isSome.mpr ⟨e, he, beq_iff_eq.mpr hname⟩
  have hinsert : insertAll ∅ s.definitions = .error ⟨d.name⟩ := by
    rw [hsplit, insertAll_append hseen, insertAll, if_pos hcontains]
  rw [ofSchema, hinsert]
  rfl

end Index

theorem Schema.namesDistinct_iff {s : Schema} :
    s.NamesDistinct ↔ ∀ name, ¬ s.FirstRepeats name := by
  constructor
  · intro hdistinct name hrepeats
    obtain ⟨index, hindex⟩ := Index.exists_ofSchema hdistinct
    rw [Index.ofSchema_of_firstRepeats hrepeats] at hindex
    cases hindex
  · intro hnone
    refine s.namesDistinct_or_firstRepeats.resolve_right ?_
    rintro ⟨name, hrepeats⟩
    exact hnone name hrepeats

theorem Index.namesDistinct_of_ofSchema {s : Schema} {index : Index}
    (h : ofSchema s = .ok index) : s.NamesDistinct := by
  refine Schema.namesDistinct_iff.mpr fun name hrepeats => ?_
  rw [ofSchema_of_firstRepeats hrepeats] at h
  cases h

end ValidatorGen
