import ValidatorGen.Proofs.Artifact.Blocks
import ValidatorGen.Target.Builtin

/-! Enumerations written as lists of their values. Each value stands in quotes, so values that have
none themselves can be read off the list, whatever commas and blanks they have, and the text of the
declaration determines them. -/
namespace ValidatorGen

/-- The value can be told from the quotes around it. -/
def Unquoted (value : String) : Prop :=
  '\'' ∉ value.toList

instance : DecidablePred Unquoted :=
  fun value => inferInstanceAs (Decidable ('\'' ∉ value.toList))

/-- A value in quotes behind a comma. -/
def nextQuoted (value : String) : List Char :=
  ", '".toList ++ value.toList ++ ['\'']

theorem append_toList_quotedList {values : List String} (h : values ≠ []) :
    ", ".toList ++ (quotedList values).toList = values.flatMap nextQuoted := by
  induction values with
  | nil => exact (h rfl).elim
  | cons value rest ih =>
    cases rest with
    | nil => simp [quotedList, commaSeparated, nextQuoted]
    | cons next rest =>
      have hrest := ih (List.cons_ne_nil next rest)
      rw [List.flatMap_cons, ← hrest]
      simp [quotedList, commaSeparated, nextQuoted]

theorem nextQuoted_append_inj {value other : String} (hvalue : Unquoted value)
    (hother : Unquoted other) {cs ds : List Char}
    (h : nextQuoted value ++ cs = nextQuoted other ++ ds) : value = other ∧ cs = ds := by
  have hread {text : String} (htext : Unquoted text) (more : List Char) :
      (text.toList ++ '\'' :: more).takeWhile (· != '\'') = text.toList := by
    rw [List.takeWhile_append_of_pos fun c hc => by simpa using ne_of_mem_of_not_mem hc htext]
    simp
  simp only [nextQuoted, List.append_assoc, List.singleton_append] at h
  have htexts := List.append_cancel_left h
  have hchars : value.toList = other.toList := by
    rw [← hread hvalue cs, htexts, hread hother ds]
  rw [hchars] at htexts
  exact ⟨String.toList_inj.mp hchars, (List.cons.inj (List.append_cancel_left htexts)).2⟩

theorem flatMap_nextQuoted_inj {values others : List String}
    (hvalues : ∀ value ∈ values, Unquoted value) (hothers : ∀ value ∈ others, Unquoted value)
    (h : values.flatMap nextQuoted = others.flatMap nextQuoted) : values = others := by
  induction values generalizing others with
  | nil =>
    cases others with
    | nil => rfl
    | cons other others => simp [nextQuoted] at h
  | cons value values ih =>
    cases others with
    | nil => simp [nextQuoted] at h
    | cons other others =>
      obtain ⟨hvalue, hmore⟩ := List.forall_mem_cons.mp hvalues
      obtain ⟨hother, hfurther⟩ := List.forall_mem_cons.mp hothers
      rw [List.flatMap_cons, List.flatMap_cons] at h
      obtain ⟨rfl, hrest⟩ := nextQuoted_append_inj hvalue hother h
      rw [ih hmore hfurther hrest]

theorem quotedList_eq_empty_iff {values : List String} : quotedList values = "" ↔ values = [] := by
  constructor
  · intro h
    cases values with
    | nil => rfl
    | cons value values =>
      have hlist := append_toList_quotedList (List.cons_ne_nil value values)
      simp [h, nextQuoted] at hlist
  · rintro rfl
    rfl

/-- Without a value there is no quote, so no values differ from one that is empty. -/
theorem quotedList_inj {values others : List String} (hvalues : ∀ value ∈ values, Unquoted value)
    (hothers : ∀ value ∈ others, Unquoted value) :
    quotedList values = quotedList others ↔ values = others := by
  refine ⟨fun h => ?_, congrArg quotedList⟩
  by_cases hnone : values = []
  · rw [hnone] at h ⊢
    exact (quotedList_eq_empty_iff.mp h.symm).symm
  · have hsome : others ≠ [] := by
      rintro rfl
      exact hnone (quotedList_eq_empty_iff.mp h)
    apply flatMap_nextQuoted_inj hvalues hothers
    rw [← append_toList_quotedList hnone, h, append_toList_quotedList hsome]

theorem exists_oneOf_eq {v : Vocabulary} (h : v ∈ builtins) :
    ∃ before after, ∀ values, v.oneOf values = before ++ quotedList values ++ after := by
  rcases mem_builtins.mp h with rfl | rfl | rfl | rfl
  · exact ⟨"z.enum([", "])", fun _ => rfl⟩
  · exact ⟨"myzod.literals(", ")", fun _ => rfl⟩
  · exact ⟨"v.picklist([", "])", fun _ => rfl⟩
  · exact ⟨"yup.string().oneOf([", "]).defined()", fun _ => rfl⟩

theorem Vocabulary.oneOf_inj {v : Vocabulary} (hv : v ∈ builtins) {values others : List String}
    (hvalues : ∀ value ∈ values, Unquoted value) (hothers : ∀ value ∈ others, Unquoted value) :
    v.oneOf values = v.oneOf others ↔ values = others := by
  obtain ⟨before, after, honeOf⟩ := exists_oneOf_eq hv
  rw [honeOf, honeOf, String.append_left_inj, String.append_right_inj,
    quotedList_inj hvalues hothers]

/-- Quotes inside a value would make one value of two. -/
example : zod.oneOf ["A', 'B"] = zod.oneOf ["A", "B"] := by decide

theorem Environment.text?_of_enumeration (env : Environment)
    (hliteral : env.settings.enumsAsTypes = true) {d : Definition} {values : List String}
    (hbody : d.body = .enumeration values) :
    env.text? d = some ("export " ++
      ("const " ++ env.names.validatorName d.name ++ " = " ++ env.vocabulary.oneOf values ++
        ";\n")) := by
  have hdeclares : env.settings.declares d.kind = true := by
    rw [Definition.kind, hbody]
    rfl
  rw [text?_eq, if_pos hdeclares, declarationWith, hbody]
  simp only [declareEnum, hliteral, if_true, Declaration.render]

/-- A built-in vocabulary writes two lists of values without single quotes as the same text only if
they are the same list. So where enumerations are declared by their values, in one schema or in two
of them, definitions of one name have the same declaration exactly if they have the same values, in
the same order and as many times. -/
theorem enumeration_texts_determine_values {v : Vocabulary} (hv : v ∈ builtins)
    {values others : List String} (hvalues : ∀ value ∈ values, Unquoted value)
    (hothers : ∀ value ∈ others, Unquoted value) :
    (v.oneOf values = v.oneOf others ↔ values = others) ∧
    ∀ (env : Environment) (index : Index) (d e : Definition), env.vocabulary = v →
      env.settings.enumsAsTypes = true → d.name = e.name → d.body = .enumeration values →
      e.body = .enumeration others →
      (env.text? d = Environment.text? { env with index } e ↔ values = others) := by
  have honeOf := v.oneOf_inj hv hvalues hothers
  refine ⟨honeOf, ?_⟩
  intro env index d e hvocabulary hliteral hname hd he
  have hother := Environment.text?_of_enumeration { env with index } hliteral he
  rw [env.text?_of_enumeration hliteral hd, hother, Option.some_inj, String.append_right_inj,
    String.append_left_inj, hname, String.append_right_inj, hvocabulary, honeOf]

/-- Two enumerations of one name whose values are the same but for where one ends and the next one
begins, and no values against one empty value. -/
theorem enumeration_texts_determine_values_size :
    let values := ["S, M", "L"]
    let others := ["S", "M, L"]
    let size : Definition := { name := "Size", body := .enumeration values }
    let other : Definition := { name := "Size", body := .enumeration others }
    let env : Environment := ⟨⟨{}, ∅⟩, { enumsAsTypes := true }, yup, .ofSettings {}⟩
    yup ∈ builtins ∧ (∀ value ∈ values, Unquoted value) ∧ (∀ value ∈ others, Unquoted value) ∧
      yup.oneOf values ≠ yup.oneOf others ∧ env.text? size ≠ env.text? other ∧
      myzod.oneOf [] ≠ myzod.oneOf [""] := by
  intro values others size other env
  have hyup : yup ∈ builtins := by simp [builtins]
  have hmyzod : myzod ∈ builtins := by simp [builtins]
  have hvalues : ∀ value ∈ values, Unquoted value := by decide
  have hothers : ∀ value ∈ others, Unquoted value := by decide
  obtain ⟨htexts, hdeclarations⟩ := enumeration_texts_determine_values hyup hvalues hothers
  have hnone : ∀ value ∈ ([] : List String), Unquoted value := by decide
  have hempty : ∀ value ∈ [""], Unquoted value := by decide
  have hcounts := (enumeration_texts_determine_values hmyzod hnone hempty).1
  refine ⟨hyup, hvalues, hothers, ?_, ?_, ?_⟩
  · rw [Ne, htexts]
    decide
  · rw [Ne, hdeclarations env env.index size other rfl rfl rfl rfl rfl]
    decide
  · rw [Ne, hcounts]
    decide

end ValidatorGen
