import ValidatorGen.Proofs.Artifact.Blocks
import ValidatorGen.Proofs.Schema.Kinds
import ValidatorGen.Proofs.Text.Paragraphs
import ValidatorGen.Proofs.Validator.Calls

/-! The paragraphs of a generated module. Where names have no line feed, no declaration has an empty
line, whatever directives hold; so the declarations can be read off the text of the module. -/
namespace ValidatorGen

open Text

/-- No name that a module is written with has a line feed, nor the validators and the method names
that the settings give. Nothing is asked of the arguments of directives and their templates. -/
structure LineFree (s : Schema) (settings : Settings) (names : NamingScheme) : Prop where
  definition : ∀ d ∈ s.definitions, OneLine d.name
  type : ∀ d ∈ s.definitions, OneLine (names.typeName d.name)
  validator : ∀ d ∈ s.definitions, OneLine (names.validatorName d.name)
  field : ∀ d ∈ s.definitions, ∀ field ∈ d.fields, OneLine field.name
  value : ∀ d ∈ s.definitions, ∀ values, d.body = .enumeration values →
    ∀ value ∈ values, OneLine value
  scalar : ∀ e ∈ settings.scalarSchemas, OneLine e.2
  method : ∀ method ∈ settings.directives.methods, OneLine method

theorem solidLine_entry {label validator : String} (hlabel : OneLine label)
    (hvalidator : OneLine validator) : SolidLine (entry label validator) :=
  (SolidLine.prepend (by decide) hlabel).append hvalidator

theorem solid_intercalate {entries : List String} (hne : entries ≠ [])
    (h : ∀ entry ∈ entries, SolidLine entry) : Solid (",\n".intercalate entries) := by
  induction entries with
  | nil => exact (hne rfl).elim
  | cons entry entries ih =>
    obtain ⟨hentry, hentries⟩ := List.forall_mem_cons.mp h
    cases entries with
    | nil => simpa using Solid.line hentry
    | cons next entries =>
      have hsep : ",\n" = "," ++ "\n" := rfl
      rw [String.intercalate_cons_cons, hsep, ← String.append_assoc]
      exact .cons (hentry.append (by decide)) (ih (by simp) hentries)

namespace Environment

variable {env : Environment}

theorem solid_objectText (hv : env.vocabulary.KeepsLines) {entries : List String}
    (h : ∀ entry ∈ entries, SolidLine entry) : Solid (env.objectText entries) := by
  have hclose : SolidLine "\x7d)" := by decide
  cases entries with
  | nil =>
    have htext : env.objectText [] = env.vocabulary.objectStart ++ "\n" ++ "\x7d)" := by
      simp [objectText]
    rw [htext]
    exact .cons hv.objectStart (.line hclose)
  | cons entry entries =>
    have htext : env.objectText (entry :: entries) = env.vocabulary.objectStart ++ "\n" ++
        (indent 1 (",\n".intercalate (entry :: entries)) ++ "\n" ++ "\x7d)") := by
      simp [objectText, String.append_assoc]
    have hentries := (solid_intercalate (List.cons_ne_nil entry entries) h).indent 1
    rw [htext]
    exact .cons hv.objectStart (hentries.append_newline (.line hclose))

theorem compact_declareObject (hv : env.vocabulary.KeepsLines) {name : String}
    (htype : OneLine (env.names.typeName name)) (hname : OneLine (env.names.validatorName name))
    {entries : List String} (h : ∀ entry ∈ entries, SolidLine entry) :
    (env.declareObject name entries).Compact := by
  have hannotation := hv.objectType htype
  have hobject := solid_objectText hv h
  unfold declareObject
  cases env.settings.objectForm with
  | const => exact ⟨by simp +decide [hname, hannotation], hobject⟩
  | function =>
    have hbody := (hobject.prepend (s := "return ") (by decide)).indent 1
    exact ⟨by simp +decide [hname, hannotation], hbody⟩

theorem compact_declareEnum (hv : env.vocabulary.KeepsLines) {name : String}
    (htype : OneLine (env.names.typeName name)) (hname : OneLine (env.names.validatorName name))
    {values : List String} (h : ∀ value ∈ values, OneLine value) :
    (env.declareEnum name values).Compact where
  head := hname
  body := by
    simp only [declareEnum]
    split
    · exact .line (hv.oneOf h)
    · exact .line (hv.memberOf htype)

variable (env) in
/-- The declaration of a definition of a kind that is declared. -/
def declarationIn (d : Definition) : Declaration :=
  env.declarationWith d (env.validators d)

variable (env) in
/-- The helpers, then the declarations of definitions in order. -/
def declarations : List Declaration :=
  env.vocabulary.helpers ++ env.declared.map env.declarationIn

theorem content_eq_intercalate :
    env.artifact.value.content =
      "\n" ++ "\n".intercalate (env.declarations.map Declaration.render) := by
  rw [value_artifact, declarations, List.map_append, List.map_map]
  simp only [content, List.map_map]
  rfl

variable {s : Schema} (henv : Index.ofSchema s = .ok env.index)
  (hfree : LineFree s env.settings env.names) (hv : env.vocabulary.KeepsLines)
include henv hfree hv

theorem oneLine_reference (name : String) : OneLine (env.reference name).value.expr := by
  have hschema : ∀ expr, env.settings.scalarSchemas.lookup name = some expr → OneLine expr :=
    fun expr h => hfree.scalar (name, expr) (Table.mem_of_lookup_eq_some h)
  apply reference_keeps hv.toKeeps hschema
  · intro hne
    obtain ⟨d, hd, rfl, -⟩ := Schema.defines_of_kindOf (kindOf_eq_kindOf henv name).symm hne
    exact hfree.validator d hd
  · intro expr hexpr
    exact hexpr.append (by decide)

theorem oneLine_fieldExpr (field : Field) : OneLine (env.fieldExpr field).value := by
  have hfield : env.KeepsOnField OneLine Call.OneLine field :=
    { vocabulary := hv.toKeeps
      reference := oneLine_reference henv hfree hv field.type.baseName
      calls := Constraint.oneLine_of_mem_calls hfree.method }
  exact hfield.fieldExpr (by decide)

theorem solidLine_of_mem_entries {d : Definition} (hd : d ∈ s.definitions) :
    ∀ text ∈ env.entriesWith d (env.validators d), SolidLine text := by
  rw [entriesWith, zipWith_entry_validators, List.forall_mem_append]
  constructor
  · intro text htext
    rw [typenameEntries] at htext
    split at htext
    · obtain rfl := List.mem_singleton.mp htext
      exact solidLine_entry (by decide) (hv.typenameTag (hfree.definition d hd))
    · cases htext
  · refine List.forall_mem_map.mpr fun field hfield => ?_
    exact solidLine_entry (hfree.field d hd field hfield) (oneLine_fieldExpr henv hfree hv field)

theorem compact_declarationIn {d : Definition} (hd : d ∈ s.definitions) :
    (env.declarationIn d).Compact := by
  have hobject := compact_declareObject hv (hfree.type d hd) (hfree.validator d hd)
    (solidLine_of_mem_entries henv hfree hv hd)
  unfold declarationIn declarationWith
  split
  · next values hbody =>
    exact compact_declareEnum hv (hfree.type d hd) (hfree.validator d hd)
      (hfree.value d hd values hbody)
  · exact hobject

end Environment

open Environment

/-- The maximal runs of non-empty lines of a module are the helpers of the vocabulary and then the
texts emitted for the declared definitions in order, each without its last line feed. Scalars have
none, and objects have one only where they are emitted. -/
theorem paragraphs_content {s : Schema} (hs : s.NamesDistinct) {settings : Settings}
    {names : NamingScheme} (hfree : LineFree s settings names) {vocabulary : Vocabulary}
    (hvocabulary : vocabulary ∈ builtins) :
    ∃ index, Index.ofSchema s = .ok index ∧
      let env : Environment := { index, settings, vocabulary, names }
      ∃ texts, (s.declared settings).map env.text? = texts.map some ∧
        (paragraphs env.artifact.value.content).map (· ++ "\n") =
          vocabulary.helpers.map Declaration.render ++ texts := by
  obtain ⟨index, hindex⟩ := Index.exists_ofSchema hs
  refine ⟨index, hindex, ?_⟩
  intro env
  have henv : Index.ofSchema s = .ok env.index := hindex
  have hv : env.vocabulary.KeepsLines := keepsLines_of_mem_builtins hvocabulary
  refine ⟨(s.declared settings).map fun d => (env.declarationIn d).render, ?_, ?_⟩
  · rw [List.map_map]
    refine List.map_congr_left fun d hd => ?_
    rw [text?_eq, if_pos (Schema.mem_declared.mp hd).2]
    rfl
  have hschema : env.index.schema = s := (Index.ofSchema_eq_ok henv).1
  have hcompact : ∀ d ∈ env.declarations, d.Compact := by
    refine List.forall_mem_append.mpr ⟨hv.helpers, List.forall_mem_map.mpr fun d hd => ?_⟩
    rw [declared, hschema] at hd
    exact compact_declarationIn henv hfree hv (Schema.mem_declared.mp hd).1
  have hblocks : ∀ block ∈ env.declarations.map Declaration.block, Solid block :=
    List.forall_mem_map.mpr fun d hd => (hcompact d hd).solid_block
  rw [content_eq_intercalate, ← Declaration.map_block_append_newline, paragraphs_blocks hblocks,
    Declaration.map_block_append_newline, declarations, List.map_append, declared, hschema,
    List.map_map]
  rfl

/-- A scalar, an enumeration and an input object, with a line feed in the value of a directive and
in the template for it. -/
theorem paragraphs_content_note :
    let pattern : Directive := { name := "pattern", arguments := [⟨"value", .string "a\nb"⟩] }
    let title : Field := { name := "title", type := .named "String", directives := [pattern] }
    let date : Definition := { name := "Date", body := .scalar }
    let color : Definition := { name := "Color", body := .enumeration ["RED", "BLUE"] }
    let note : Definition := { name := "Note", body := .inputObject [title] }
    let s : Schema := { definitions := [date, color, note] }
    let settings : Settings :=
      { enumsAsTypes := true
        scalarSchemas := [("Date", "z.date()")]
        directives := [("pattern", [("value", .call ["regex", "$1", "see\n$1"])])] }
    let names : NamingScheme := .ofSettings settings
    s.NamesDistinct ∧ LineFree s settings names ∧ zod ∈ builtins ∧
      ∃ index, Index.ofSchema s = .ok index ∧
        let env : Environment := ⟨index, settings, zod, names⟩
        ∃ texts, [color, note].map env.text? = texts.map some ∧
          (paragraphs env.artifact.value.content).map (· ++ "\n") =
            zod.helpers.map Declaration.render ++ texts := by
  intro pattern title date color note s settings names
  have hs : s.NamesDistinct := by simp [Schema.NamesDistinct, s, date, color, note]
  have hvalues : ∀ d ∈ s.definitions, ∀ values, d.body = .enumeration values →
      ∀ value ∈ values, OneLine value := by
    intro d hd values hbody
    simp only [s, List.mem_cons, List.not_mem_nil, or_false] at hd
    rcases hd with rfl | rfl | rfl
    · cases hbody
    · cases hbody
      decide
    · cases hbody
  have hfree : LineFree s settings names :=
    { definition := by decide
      type := by decide
      validator := by decide
      field := by decide
      value := hvalues
      scalar := by decide
      method := by decide }
  have hzod : zod ∈ builtins := List.mem_cons_self
  exact ⟨hs, hfree, hzod, paragraphs_content hs hfree hzod⟩

end ValidatorGen
