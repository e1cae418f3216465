import Mathlib.Data.List.Basic
import ValidatorGen.Proofs.Artifact.Blocks

/-! The import of the types. The list of names is filled definition by definition: every name stands
there once, at the place where the first definition with that name put it. -/
namespace ValidatorGen

namespace ImportList

/-- The list holds exactly the inserted names, in the order in which they first came. -/
structure Records (l : ImportList) (inserted : List String) : Prop where
  seen : ∀ name, name ∈ l.seen ↔ name ∈ l.toList
  mem : ∀ name, name ∈ l.toList ↔ name ∈ inserted
  order : l.toList.Pairwise fun a b => inserted.idxOf a < inserted.idxOf b

variable {l : ImportList} {inserted : List String}

theorem Records.nodup (h : l.Records inserted) : l.toList.Nodup :=
  h.order.imp fun hlt heq => Nat.ne_of_lt hlt (congrArg inserted.idxOf heq)

theorem Records.isEmpty (h : l.Records inserted) : l.isEmpty = true ↔ inserted = [] := by
  rw [ImportList.isEmpty, Array.isEmpty_iff, ← Array.toList_eq_nil_iff,
    List.eq_nil_iff_forall_not_mem, List.eq_nil_iff_forall_not_mem]
  exact forall_congr' fun name => not_congr (h.mem name)

/-- Further names do not move those that came before. -/
theorem idxOf_lt_append {a b : String} (ha : a ∈ inserted) (hb : b ∈ inserted)
    (hlt : inserted.idxOf a < inserted.idxOf b) (more : List String) :
    (inserted ++ more).idxOf a < (inserted ++ more).idxOf b := by
  rwa [List.idxOf_append_of_mem ha, List.idxOf_append_of_mem hb]

theorem idxOf_lt_new {a b : String} (ha : a ∈ inserted) (hb : b ∉ inserted) :
    (inserted ++ [b]).idxOf a < (inserted ++ [b]).idxOf b := by
  rw [List.idxOf_append_of_mem ha, List.idxOf_append_of_notMem hb, List.idxOf_cons_self,
    Nat.add_zero]
  exact List.idxOf_lt_length_of_mem ha

/-- One name more, which is there already or comes last. -/
theorem Records.insert (h : l.Records inserted) (name : String) :
    (l.insert name).Records (inserted ++ [name]) := by
  have hkept : l.toList.Pairwise fun a b =>
      (inserted ++ [name]).idxOf a < (inserted ++ [name]).idxOf b :=
    h.order.imp_of_mem fun ha hb hlt =>
      idxOf_lt_append ((h.mem _).mp ha) ((h.mem _).mp hb) hlt [name]
  by_cases hname : l.seen.contains name = true
  -- A repeated name changes nothing, since only first places count.
  · have hsame : l.insert name = l := if_pos hname
    have hinserted : name ∈ inserted := (h.mem name).mp ((h.seen name).mp hname)
    rw [hsame]
    refine ⟨h.seen, fun other => ?_, hkept⟩
    rw [h.mem, List.mem_append, List.mem_singleton, or_iff_left_of_imp (· ▸ hinserted)]
  · have hlist : (l.insert name).toList = l.toList ++ [name] := by
      rw [toList_insert, if_neg hname]
    have hseen : (l.insert name).seen = l.seen.insert name := by
      rw [ImportList.insert, if_neg hname]
    have hfresh : name ∉ inserted := fun hmem => hname ((h.seen name).mpr ((h.mem name).mpr hmem))
    refine ⟨fun other => ?_, fun other => ?_, ?_⟩
    · rw [hlist, hseen, Std.TreeSet.mem_insert, List.mem_append, List.mem_singleton, h.seen,
        Std.compare_eq_iff_eq, or_comm, eq_comm]
    · rw [hlist, List.mem_append, List.mem_append, h.mem]
    · rw [hlist, List.pairwise_append]
      refine ⟨hkept, List.pairwise_singleton _ _, fun a ha b hb => ?_⟩
      obtain rfl := List.mem_singleton.mp hb
      exact idxOf_lt_new ((h.mem a).mp ha) hfresh

theorem Records.insertAll (h : l.Records inserted) (more : List String) :
    (l.insertAll more).Records (inserted ++ more) := by
  induction more generalizing l inserted with
  | nil => simpa [ImportList.insertAll] using h
  | cons name rest ih =>
    have hrest := ih (h.insert name)
    rwa [List.append_assoc] at hrest

theorem records_ofList (inserted : List String) : (ofList inserted).Records inserted := by
  have hempty : empty.Records [] := by
    refine ⟨fun name => ?_, fun name => Iff.rfl, List.Pairwise.nil⟩
    simp [seen_empty]
  exact hempty.insertAll inserted

end ImportList

theorem Settings.declares_eq_true_iff {settings : Settings} {kind : Kind} :
    settings.declares kind = true ↔ kind = .enumeration ∨ kind = .inputObject ∨
      kind = .object ∧ settings.emitObjects = true := by
  cases kind <;> simp [declares]

theorem Environment.isSome_emission? (env : Environment) (d : Definition) :
    (env.emission? d).value.isSome = env.settings.declares d.kind := by
  rw [value_emission?_eq_block]
  cases env.settings.declares d.kind <;> rfl

/-- The import of the library comes first. A second line, the last one, follows exactly if the types
have a source and a definition is emitted. It has the converted names of the emitted definitions,
each once, in the order of the first definitions that they belong to. -/
theorem prepend_artifact {s : Schema} (hs : s.NamesDistinct) (settings : Settings)
    (vocabulary : Vocabulary) (names : NamingScheme) :
    ∃ index, Index.ofSchema s = .ok index ∧
      let env : Environment := ⟨index, settings, vocabulary, names⟩
      let emitted := s.definitions.filter fun d => (env.emission? d).value.isSome
      let converted := emitted.map fun d => names.typeName d.name
      (∀ d, d ∈ emitted ↔ d ∈ s.definitions ∧ (d.kind = .enumeration ∨ d.kind = .inputObject ∨
        d.kind = .object ∧ settings.emitObjects = true)) ∧
      ∃ imported : List String,
        imported.Nodup ∧ (∀ name, name ∈ imported ↔ name ∈ converted) ∧
        imported.Pairwise (fun a b => converted.idxOf a < converted.idxOf b) ∧
        (∀ source, settings.importFrom = some source → emitted ≠ [] →
          env.artifact.value.prepend = [vocabulary.importLine,
            "import \x7b " ++ ", ".intercalate imported ++ " \x7d from '" ++ source ++ "'"]) ∧
        (settings.importFrom = none ∨ emitted = [] →
          env.artifact.value.prepend = [vocabulary.importLine]) := by
  obtain ⟨index, hindex⟩ := Index.exists_ofSchema hs
  refine ⟨index, hindex, ?_⟩
  intro env emitted converted
  have henv : Index.ofSchema s = .ok env.index := hindex
  have hdeclared : emitted = env.declared := by
    rw [Environment.declared_of_ofSchema henv]
    exact List.filter_congr fun d _ => env.isSome_emission? d
  have hrecords : env.imports.Records converted := by
    have himports : env.imports = .ofList converted := by
      rw [Environment.imports, ← hdeclared]
    exact himports ▸ ImportList.records_ofList converted
  have hempty : env.imports.isEmpty = true ↔ emitted = [] :=
    hrecords.isEmpty.trans List.map_eq_nil_iff
  refine ⟨fun d => ?_, env.imports.toList, hrecords.nodup, hrecords.mem, hrecords.order, ?_, ?_⟩
  · rw [List.mem_filter, env.isSome_emission?, Settings.declares_eq_true_iff]
  · intro source hsource hne
    rw [env.value_artifact]
    simp only [Environment.prepend, env, hsource]
    rw [if_neg (mt hempty.mp hne)]
    rfl
  · rintro (hsource | hnil)
    · rw [env.value_artifact]
      simp only [Environment.prepend, env, hsource]
    · rw [env.value_artifact]
      simp only [Environment.prepend, hempty.mpr hnil, if_true]
      cases env.settings.importFrom <;> rfl

/-- Two names that differ only in their first letter, between a scalar and an object that is left
out. -/
theorem prepend_artifact_users :
    let s : Schema :=
      { definitions :=
          [{ name := "Date", body := .scalar }, { name := "user", body := .enumeration ["A"] },
            { name := "Page", body := .object [] }, { name := "User", body := .inputObject [] },
            { name := "color", body := .enumeration ["RED"] }] }
    let settings : Settings := { importFrom := some "../types", emitObjects := false }
    let names := NamingScheme.ofSettings settings
    s.NamesDistinct ∧ ∃ index, Index.ofSchema s = .ok index ∧
      (⟨index, settings, yup, names⟩ : Environment).artifact.value.prepend =
        [yup.importLine, "import \x7b User, Color \x7d from '../types'"] := by
  intro s settings names
  have hs : s.NamesDistinct := by simp [Schema.NamesDistinct, s]
  obtain ⟨index, hindex, -, imported, hnodup, hmem, horder, hprepend, -⟩ :=
    prepend_artifact hs settings yup names
  have hemitted : s.definitions.filter (fun d =>
      ((⟨index, settings, yup, names⟩ : Environment).emission? d).value.isSome) =
      [{ name := "user", body := .enumeration ["A"] }, { name := "User", body := .inputObject [] },
        { name := "color", body := .enumeration ["RED"] }] := rfl
  have hconverted : (s.definitions.filter fun d =>
      ((⟨index, settings, yup, names⟩ : Environment).emission? d).value.isSome).map
        (fun d => names.typeName d.name) = ["User", "User", "Color"] := by
    rw [hemitted]
    decide
  rw [hconverted] at hmem horder
  have himported : imported = ["User", "Color"] := by
    have hperm : imported.Perm ["User", "Color"] :=
      (List.perm_ext_iff_of_nodup hnodup (by decide)).mpr fun name => by simp [hmem]
    exact hperm.eq_of_pairwise (fun _ _ _ _ hab hba => (Nat.lt_asymm hab hba).elim) horder
      (by decide)
  refine ⟨hs, index, hindex, ?_⟩
  rw [hprepend "../types" rfl (by rw [hemitted]; exact List.cons_ne_nil _ _), himported]
  rfl

end ValidatorGen
