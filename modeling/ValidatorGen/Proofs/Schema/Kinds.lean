import Mathlib.Data.List.Nodup
import ValidatorGen.Proofs.Schema.Index
import ValidatorGen.Validator.Reference

/-! The kind behind a name. Where names are distinct it is settled by which names are defined as
enumerations, input objects and objects, whatever the order of the definitions and their content;
scalars have no part in it. -/
namespace ValidatorGen

namespace Schema

variable {s s' : Schema}

/-- The kind of the definition of a name; scalar for a name without one. -/
def kindOf (s : Schema) (name : String) : Kind :=
  ((s.definitions.find? (·.name == name)).map Definition.kind).getD .scalar

/-- The schema has a definition of this name and kind. -/
def Defines (s : Schema) (name : String) (kind : Kind) : Prop :=
  ∃ d ∈ s.definitions, d.name = name ∧ d.kind = kind

theorem defines_of_kindOf {name : String} {kind : Kind} (h : s.kindOf name = kind)
    (hkind : kind ≠ .scalar) : s.Defines name kind := by
  rw [kindOf] at h
  cases hfind : s.definitions.find? (·.name == name) with
  | none =>
    rw [hfind] at h
    exact (hkind h.symm).elim
  | some d =>
    rw [hfind] at h
    have hname : d.name = name := by simpa using List.find?_some hfind
    exact ⟨d, List.mem_of_find?_eq_some hfind, hname, h⟩

theorem NamesDistinct.kindOf_of_mem (hs : s.NamesDistinct) {d : Definition}
    (hd : d ∈ s.definitions) : s.kindOf d.name = d.kind := by
  rw [kindOf, hs.find?_eq_some hd]
  rfl

theorem NamesDistinct.kindOf_eq_iff (hs : s.NamesDistinct) {name : String} {kind : Kind}
    (hkind : kind ≠ .scalar) : s.kindOf name = kind ↔ s.Defines name kind := by
  refine ⟨fun h => defines_of_kindOf h hkind, ?_⟩
  rintro ⟨d, hd, rfl, rfl⟩
  exact hs.kindOf_of_mem hd

theorem kindOf_congr (hs : s.NamesDistinct) (hs' : s'.NamesDistinct)
    (h : ∀ name kind, kind ≠ .scalar → (s.Defines name kind ↔ s'.Defines name kind)) :
    s.kindOf = s'.kindOf := by
  funext name
  have hiff : ∀ kind, kind ≠ .scalar → (s.kindOf name = kind ↔ s'.kindOf name = kind) := by
    intro kind hkind
    rw [hs.kindOf_eq_iff hkind, hs'.kindOf_eq_iff hkind]
    exact h name kind hkind
  by_cases hscalar : s'.kindOf name = .scalar
  · by_cases hkind : s.kindOf name = .scalar
    · rw [hkind, hscalar]
    · exact ((hiff _ hkind).mp rfl).symm
  · exact (hiff _ hscalar).mpr rfl

theorem kindOf_of_perm (hs : s.NamesDistinct) (h : s'.definitions.Perm s.definitions) :
    s'.NamesDistinct ∧ s'.kindOf = s.kindOf := by
  have hs' : s'.NamesDistinct := (h.map Definition.name).nodup_iff.mpr hs
  refine ⟨hs', kindOf_congr hs' hs ?_⟩
  intro name kind _
  simp only [Defines, h.mem_iff]

theorem kindOf_of_replace (hs : s.NamesDistinct) {before after : List Definition}
    {d d' : Definition} (h : s.definitions = before ++ d :: after)
    (h' : s'.definitions = before ++ d' :: after) (hname : d'.name = d.name)
    (hkind : d'.kind = d.kind) : s'.NamesDistinct ∧ s'.kindOf = s.kindOf := by
  have hs' : s'.NamesDistinct := by
    rw [NamesDistinct, h', List.map_append, List.map_cons, hname]
    simpa [NamesDistinct, h] using hs
  refine ⟨hs', kindOf_congr hs' hs ?_⟩
  intro name kind _
  simp [Defines, h, h', or_and_right, exists_or, hname, hkind]

/-- Scalars do not count for the kinds behind names. -/
theorem kindOf_of_same_nonScalars (hs : s.NamesDistinct) (hs' : s'.NamesDistinct)
    (h : ∀ d, d.kind ≠ .scalar → (d ∈ s'.definitions ↔ d ∈ s.definitions)) :
    s'.kindOf = s.kindOf := by
  apply kindOf_congr hs' hs
  intro name kind hkind
  constructor
  · rintro ⟨d, hd, rfl, rfl⟩
    exact ⟨d, (h d hkind).mp hd, rfl, rfl⟩
  · rintro ⟨d, hd, rfl, rfl⟩
    exact ⟨d, (h d hkind).mpr hd, rfl, rfl⟩

/-- A new scalar leaves the kinds as they are, also where fields use its name. -/
theorem kindOf_of_insert (hs : s.NamesDistinct) {before after : List Definition} {d : Definition}
    (h : s.definitions = before ++ after) (h' : s'.definitions = before ++ d :: after)
    (hscalar : d.kind = .scalar) (hfresh : ∀ e ∈ s.definitions, e.name ≠ d.name) :
    s'.NamesDistinct ∧ s'.kindOf = s.kindOf := by
  have hs' : s'.NamesDistinct := by
    rw [NamesDistinct, h', List.map_append, List.map_cons, List.nodup_middle, ← List.map_append,
      ← h, List.nodup_cons]
    refine ⟨?_, hs⟩
    rintro hmem
    obtain ⟨e, he, hname⟩ := List.mem_map.mp hmem
    exact hfresh e he hname
  refine ⟨hs', kindOf_of_same_nonScalars hs hs' ?_⟩
  intro e he
  have hne : e ≠ d := fun heq => he (heq ▸ hscalar)
  simp [h, h', hne]

theorem kindOf_of_filter (hs : s.NamesDistinct) {keep : Definition → Bool}
    (h' : s'.definitions = s.definitions.filter keep)
    (hkeep : ∀ d ∈ s.definitions, keep d = false → d.kind = .scalar) :
    s'.NamesDistinct ∧ s'.kindOf = s.kindOf := by
  have hs' : s'.NamesDistinct := by
    rw [NamesDistinct, h']
    exact (List.filter_sublist.map Definition.name).nodup hs
  refine ⟨hs', kindOf_of_same_nonScalars hs hs' ?_⟩
  intro d hd
  rw [h', List.mem_filter, and_iff_left_iff_imp]
  intro hmem
  cases hkept : keep d with
  | true => rfl
  | false => exact (hd (hkeep d hmem hkept)).elim

end Schema

theorem Environment.kindOf_eq_kindOf {env : Environment} {s : Schema}
    (h : Index.ofSchema s = .ok env.index) (name : String) : env.kindOf name = s.kindOf name := by
  rw [Environment.kindOf, Index.kindOf?, Index.get?_of_ofSchema h, Schema.kindOf]

theorem Environment.kindOf_of_mem {env : Environment} {s : Schema}
    (h : Index.ofSchema s = .ok env.index) (hs : s.NamesDistinct) {d : Definition}
    (hd : d ∈ s.definitions) : env.kindOf d.name = d.kind :=
  (kindOf_eq_kindOf h d.name).trans (hs.kindOf_of_mem hd)

end ValidatorGen
