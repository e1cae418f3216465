import Mathlib.Data.List.Infix
import ValidatorGen.Proofs.Artifact.Blocks
import ValidatorGen.Proofs.Text.Indent
import ValidatorGen.Proofs.Text.Uppercase

/-! The lines of object validators. The text of an object validator is a header, a line for each
entry behind a margin and the closing brackets, where neither names nor validators break a line. -/
namespace ValidatorGen

open Text

/-- Object validators are written around unbroken texts without breaking them. -/
structure Vocabulary.KeepsUnbroken (v : Vocabulary) : Prop where
  objectStart : Unbroken v.objectStart
  typenameTag {type : String} : Unbroken type → Unbroken (v.typenameTag type)
  objectType {type : String} : Unbroken type → Unbroken (v.objectType type)

theorem keepsUnbroken_of_mem_builtins {v : Vocabulary} (h : v ∈ builtins) : v.KeepsUnbroken := by
  rcases mem_builtins.mp h with rfl | rfl | rfl | rfl <;>
    exact ⟨by decide, fun h => by simp +decide [zod, myzod, valibot, yup, h],
      fun h => by simp +decide [zod, myzod, valibot, yup, h]⟩

/-- A standard identifier shows the line breaks of the name that it is made from. -/
theorem NamingScheme.unbroken_of_typeName {settings : Settings} {raw : String}
    (h : Unbroken ((ofSettings settings).typeName raw)) : Unbroken raw := by
  rw [ofSettings, typeName_standard, Unbroken.append, Unbroken.append] at h
  have hcapital : Unbroken (capitalize raw) := h.1.2
  intro c hc
  constructor
  · rintro rfl
    exact (hcapital '\n' (mem_capitalize_of_mem hc (by decide) (by decide))).1 rfl
  · rintro rfl
    exact (hcapital '\r' (mem_capitalize_of_mem hc (by decide) (by decide))).2 rfl

theorem unbroken_entry {label validator : String} (hlabel : Unbroken label)
    (hvalidator : Unbroken validator) : Unbroken (entry label validator) := by
  have hcolon : Unbroken ": " := by decide
  rw [entry]
  exact Unbroken.append.mpr ⟨Unbroken.append.mpr ⟨hlabel, hcolon⟩, hvalidator⟩

theorem entry_ne_empty (label validator : String) : entry label validator ≠ "" := by
  intro hempty
  have hlabel := (String.append_eq_empty_iff.mp hempty).1
  exact absurd (String.append_eq_empty_iff.mp hlabel).2 (by decide)

namespace Environment

variable (env : Environment)

/-- The entries of a definition: its own name where it is an object, then its fields in order. -/
def entries (d : Definition) : List String :=
  (if d.kind = .object then [entry "__typename" (env.vocabulary.typenameTag d.name)] else []) ++
    d.fields.map fun field => entry field.name (env.fieldExpr field).value

/-- The lines of the declaration of an object validator with the given entries. -/
def objectLines (name : String) (entries : List String) : List String :=
  let annotation := env.vocabulary.objectType (env.names.typeName name)
  match env.settings.objectForm with
  | .const =>
    ("export const " ++ env.names.validatorName name ++ ": " ++ annotation ++ " = " ++
        env.vocabulary.objectStart) ::
      (separated entries).map ("  " ++ ·) ++ ["\x7d);"]
  | .function =>
    ("export function " ++ env.names.validatorName name ++ "(): " ++ annotation ++ " \x7b") ::
      ("  return " ++ env.vocabulary.objectStart) ::
      (separated entries).map ("    " ++ ·) ++ ["  \x7d)", "\x7d"]

variable {env} {items : List String} (hitems : ∀ item ∈ items, Unbroken item ∧ item ≠ "")
include hitems

theorem objectText_eq_unlines :
    env.objectText items =
      unlines (env.vocabulary.objectStart :: (separated items).map ("  " ++ ·)) ++ "\x7d)" := by
  cases items with
  | nil => simp [objectText, separated]
  | cons item rest =>
    have hlines := indent_intercalate (List.cons_ne_nil item rest) hitems
    rw [objectText, List.isEmpty_cons, unlines_cons, ← hlines]
    simp [String.append_assoc]

theorem unbroken_of_mem_separated : ∀ l ∈ separated items, Unbroken l := by
  intro l hl
  rcases List.mem_append.mp hl with hl | hl
  · obtain ⟨item, hitem, rfl⟩ := List.mem_map.mp hl
    have hcomma : Unbroken "," := by decide
    exact Unbroken.append.mpr ⟨(hitems item (List.mem_of_mem_dropLast hitem)).1, hcomma⟩
  · exact (hitems l (List.mem_of_getLast? (Option.mem_toList.mp hl))).1

/-- The second pass of indenting moves the lines of the first one, and does not lose one. -/
theorem indent_return_objectText (hstart : Unbroken env.vocabulary.objectStart) :
    indent 1 ("return " ++ env.objectText items) =
      unlines (("  return " ++ env.vocabulary.objectStart) ::
        (separated items).map ("    " ++ ·)) ++ "  \x7d)" := by
  have htext : "return " ++ env.objectText items =
      unlines (("return " ++ env.vocabulary.objectStart) ::
        (separated items).map ("  " ++ ·)) ++ "\x7d)" := by
    rw [objectText_eq_unlines hitems]
    simp [String.append_assoc]
  have hlines : ∀ l ∈ ("return " ++ env.vocabulary.objectStart) ::
      (separated items).map ("  " ++ ·), Unbroken l := by
    have hreturn : Unbroken "return " := by decide
    have hmargin : Unbroken "  " := by decide
    refine List.forall_mem_cons.mpr ⟨Unbroken.append.mpr ⟨hreturn, hstart⟩, ?_⟩
    refine List.forall_mem_map.mpr fun l hl => ?_
    exact Unbroken.append.mpr ⟨hmargin, unbroken_of_mem_separated hitems l hl⟩
  have hpad (before l : String) (hbefore : before ≠ "") :
      padLine 1 (before ++ l) = "  " ++ before ++ l := by
    rw [padLine_one fun hempty => hbefore (String.append_eq_empty_iff.mp hempty).1,
      String.append_assoc]
  have hmap : ((separated items).map ("  " ++ ·)).map (padLine 1) =
      (separated items).map ("    " ++ ·) := by
    rw [List.map_map]
    exact List.map_congr_left fun l _ => hpad "  " l (by decide)
  have hclose : OneLine "\x7d)" := by decide
  rw [htext, indent_unlines_append hlines hclose (by decide), List.map_cons, hmap,
    hpad "return " _ (by decide)]
  rfl

theorem render_declareObject_eq_unlines (hstart : Unbroken env.vocabulary.objectStart)
    (name : String) :
    (env.declareObject name items).render = unlines (env.objectLines name items) := by
  cases hform : env.settings.objectForm with
  | const =>
    have hobject : env.objectText items = _ := objectText_eq_unlines hitems
    simp [Declaration.render, declareObject, objectLines, hform, hobject, ← String.toList_inj]
  | function =>
    have hbody := indent_return_objectText hitems hstart
    simp [Declaration.render, declareObject, objectLines, hform, hbody, ← String.toList_inj]

theorem unbroken_of_mem_objectLines (hv : env.vocabulary.KeepsUnbroken) {name : String}
    (htype : Unbroken (env.names.typeName name)) (hname : Unbroken (env.names.validatorName name)) :
    ∀ l ∈ env.objectLines name items, Unbroken l := by
  have hannotation := hv.objectType htype
  have hentries := unbroken_of_mem_separated hitems
  have hstart := hv.objectStart
  intro l hl
  unfold objectLines at hl
  cases hform : env.settings.objectForm with
  | const =>
    simp only [hform, List.cons_append, List.mem_cons, List.mem_append, List.mem_map,
      List.not_mem_nil, or_false] at hl
    rcases hl with rfl | ⟨item, hitem, rfl⟩ | rfl
    · simp +decide [hname, hannotation, hstart]
    · simp +decide [hentries item hitem]
    · decide
  | function =>
    simp only [hform, List.cons_append, List.mem_cons, List.mem_append, List.mem_map,
      List.not_mem_nil, or_false] at hl
    rcases hl with rfl | rfl | ⟨item, hitem, rfl⟩ | rfl | rfl
    · simp +decide [hname, hannotation]
    · simp +decide [hstart]
    · simp +decide [hentries item hitem]
    · decide
    · decide

end Environment

namespace Environment

variable {env : Environment} {d : Definition}

theorem entriesWith_validators : env.entriesWith d (env.validators d) = env.entries d := by
  rw [entriesWith, zipWith_entry_validators]
  rfl

theorem text?_eq_declareObject
    (hkind : d.kind = .inputObject ∨ d.kind = .object ∧ env.settings.emitObjects = true) :
    env.text? d = some (env.declareObject d.name (env.entries d)).render := by
  have hdeclares : env.settings.declares d.kind = true := by
    rcases hkind with h | ⟨h, hemit⟩
    · rw [h]
      rfl
    · rw [h]
      exact hemit
  have henum : d.kind ≠ .enumeration := by
    rcases hkind with h | ⟨h, -⟩ <;> simp [h]
  rw [text?, value_emission?_eq_block, if_pos hdeclares, Option.map_some, text_block env henum,
    entriesWith_validators]

/-- Once its entries are known, no more of the schema plays a part in the text of an object. -/
theorem text_block_eq_unlines {items : List String} (hkind : d.kind ≠ .enumeration)
    (hstart : Unbroken env.vocabulary.objectStart) (hentries : env.entries d = items)
    (hitems : ∀ item ∈ items, Unbroken item ∧ item ≠ "") :
    (env.block d).text = unlines (env.objectLines d.name items) := by
  rw [text_block env hkind, entriesWith_validators, hentries,
    render_declareObject_eq_unlines hitems hstart]

theorem unbroken_of_mem_entries (hv : env.vocabulary.KeepsUnbroken)
    (hname : d.kind = .object → Unbroken d.name)
    (hfields : ∀ field ∈ d.fields, Unbroken field.name ∧ Unbroken (env.fieldExpr field).value) :
    ∀ item ∈ env.entries d, Unbroken item ∧ item ≠ "" := by
  refine List.forall_mem_append.mpr ⟨?_, List.forall_mem_map.mpr fun field hfield => ?_⟩
  · intro item hitem
    split at hitem
    · next hobject =>
      obtain rfl := List.mem_singleton.mp hitem
      have htag : Unbroken "__typename" := by decide
      exact ⟨unbroken_entry htag (hv.typenameTag (hname hobject)), entry_ne_empty _ _⟩
    · cases hitem
  · obtain ⟨hlabel, hvalidator⟩ := hfields field hfield
    exact ⟨unbroken_entry hlabel hvalidator, entry_ne_empty _ _⟩

/-- The declaration of an input object or of an object that is emitted is a header, one line for each
entry and the closing brackets. The entries are the tag with the raw name of an object and then the
fields in their order, with a comma after each but the last. It is enough that the identifier, the
labels and the validators have no line breaks. Only where another naming than the standard one may
hide or add some, the raw name and the validator's identifier must have none either. -/
theorem text_lists_entries (hvocabulary : env.vocabulary ∈ builtins)
    (hkind : d.kind = .inputObject ∨ d.kind = .object ∧ env.settings.emitObjects = true)
    (htype : Unbroken (env.names.typeName d.name))
    (hfields : ∀ field ∈ d.fields, Unbroken field.name ∧ Unbroken (env.fieldExpr field).value)
    (hnames : env.names = .ofSettings env.settings ∨
      Unbroken d.name ∧ Unbroken (env.names.validatorName d.name)) :
    let written := env.objectLines d.name (env.entries d)
    env.text? d = some (unlines written) ∧
      lines (unlines written).toList = written.map String.toList := by
  intro written
  have hv := keepsUnbroken_of_mem_builtins hvocabulary
  have hboth : Unbroken d.name ∧ Unbroken (env.names.validatorName d.name) := by
    rcases hnames with hstandard | hboth
    · rw [hstandard] at htype ⊢
      have hsuffix : Unbroken "Schema" := by decide
      exact ⟨NamingScheme.unbroken_of_typeName htype, Unbroken.append.mpr ⟨htype, hsuffix⟩⟩
    · exact hboth
  have hentries := unbroken_of_mem_entries hv (fun _ => hboth.1) hfields
  constructor
  · rw [text?_eq_declareObject hkind, render_declareObject_eq_unlines hentries hv.objectStart]
  · exact lines_unlines (unbroken_of_mem_objectLines hentries hv htype hboth.2)

/-- An object in the form of a function, with its tag and a field of several parts. -/
theorem text_lists_entries_user :
    let id : Field := { name := "id", type := .nonNull (.named "ID") }
    let tags : Field := { name := "tags", type := .list (.named "String") }
    let user : Definition := { name := "user", body := .object [id, tags] }
    let env : Environment := ⟨⟨{}, ∅⟩, {}, valibot, .ofSettings {}⟩
    env.vocabulary ∈ builtins ∧ (user.kind = .object ∧ env.settings.emitObjects = true) ∧
      Unbroken (env.names.typeName "user") ∧
      (∀ field ∈ user.fields, Unbroken field.name ∧ Unbroken (env.fieldExpr field).value) ∧
      env.names = .ofSettings env.settings ∧
      env.text? user = some (unlines
        ["export function UserSchema(): v.GenericSchema<User> \x7b",
          "  return v.object(\x7b",
          "    __typename: v.optional(v.literal('user')),",
          "    id: v.string(),",
          "    tags: v.nullish(v.array(v.nullable(v.string())))",
          "  \x7d)",
          "\x7d"]) := by
  intro id tags user env
  have hvocabulary : env.vocabulary ∈ builtins := by simp [builtins, env]
  have htype : Unbroken (env.names.typeName "user") := by decide
  have hfields : ∀ field ∈ user.fields,
      Unbroken field.name ∧ Unbroken (env.fieldExpr field).value := by decide
  have hwritten : env.objectLines user.name (env.entries user) =
      ["export function UserSchema(): v.GenericSchema<User> \x7b",
        "  return v.object(\x7b",
        "    __typename: v.optional(v.literal('user')),",
        "    id: v.string(),",
        "    tags: v.nullish(v.array(v.nullable(v.string())))",
        "  \x7d)",
        "\x7d"] := by decide
  have htext :=
    (text_lists_entries (d := user) hvocabulary (.inr ⟨rfl, rfl⟩) htype hfields (.inl rfl)).1
  rw [hwritten] at htext
  exact ⟨hvocabulary, ⟨rfl, rfl⟩, htype, hfields, rfl, htext⟩

end Environment

end ValidatorGen
