import Mathlib.Data.List.Nodup
import ValidatorGen.Proofs.Settings.Shapes
import ValidatorGen.Settings.Load

/-! Settings by their keys. A configuration gives settings exactly if each key that it knows has a value
of its own shape. Each key settles one field, which has its default where the key is left out, and
nothing else in the configuration has a part in it. -/
namespace ValidatorGen
namespace Settings

/-- The keys of a configuration, by the fields that they settle. -/
inductive Key
  | backend
  | objectForm
  | enumsAsTypes
  | scalars
  | scalarSchemas
  | directives
  | rejectEmptyStrings
  | importFrom
  | emitObjects
  | typesPrefix
  | typesSuffix

namespace Key
open Setting

def name : Key → String
  | backend => "schema"
  | objectForm => "export_type"
  | enumsAsTypes => "enums_as_types"
  | scalars => "scalars"
  | scalarSchemas => "scalar_schemas"
  | directives => "directives"
  | rejectEmptyStrings => "not_allow_empty_string"
  | importFrom => "import_from"
  | emitObjects => "with_object_type"
  | typesPrefix => "types_prefix"
  | typesSuffix => "types_suffix"

def Content : Key → Type
  | objectForm => ObjectForm
  | enumsAsTypes | rejectEmptyStrings | emitObjects => Bool
  | scalars | scalarSchemas => Table String
  | directives => DirectiveTable
  | importFrom => Option String
  | backend | typesPrefix | typesSuffix => String

def field (settings : Settings) : (k : Key) → k.Content
  | backend => settings.backend
  | objectForm => settings.objectForm
  | enumsAsTypes => settings.enumsAsTypes
  | scalars => settings.scalars
  | scalarSchemas => settings.scalarSchemas
  | directives => settings.directives
  | rejectEmptyStrings => settings.rejectEmptyStrings
  | importFrom => settings.importFrom
  | emitObjects => settings.emitObjects
  | typesPrefix => settings.typesPrefix
  | typesSuffix => settings.typesSuffix

/-- The shape that values of the key have. -/
def Admits : Key → Setting → Prop
  | objectForm => IsObjectForm
  | enumsAsTypes | rejectEmptyStrings | emitObjects => IsFlag
  | scalars | scalarSchemas => IsTableOf IsText
  | directives => IsTableOf (IsTableOf IsArgumentRule)
  | importFrom => fun s => s.IsText ∨ s = .null
  | backend | typesPrefix | typesSuffix => IsText

/-- How a value of the key says a content. -/
def write : (k : Key) → k.Content → Setting
  | objectForm => ObjectForm.toSetting
  | enumsAsTypes | rejectEmptyStrings | emitObjects => .bool
  | scalars | scalarSchemas => ofTable .text
  | directives => ofTable (ofTable ArgumentRule.toSetting)
  | importFrom => ofOptionalText
  | backend | typesPrefix | typesSuffix => .text

def read (dialect : Dialect) : (k : Key) → Setting → Option k.Content
  | objectForm => ObjectForm.ofSetting? dialect
  | enumsAsTypes | rejectEmptyStrings | emitObjects => flag?
  | scalars | scalarSchemas => Table.ofSetting? text?
  | directives => DirectiveTable.ofSetting?
  | importFrom => optionalText?
  | backend | typesPrefix | typesSuffix => text?

theorem reads (dialect : Dialect) (k : Key) {s : Setting}
    (h : k = objectForm → ∀ entries, s ≠ .table entries) :
    Reads (k.read dialect) k.Admits k.write s := by
  cases k with
  | objectForm => exact reads_objectForm dialect (h rfl)
  | enumsAsTypes | rejectEmptyStrings | emitObjects => exact reads_flag s
  | scalars | scalarSchemas => exact Reads.table reads_text s
  | directives => exact reads_directiveTable s
  | importFrom => exact reads_optionalText s
  | backend | typesPrefix | typesSuffix => exact reads_text s

end Key

/-- The settings with the given fields. -/
def ofFields (content : (k : Key) → k.Content) : Settings :=
  { backend := content .backend
    objectForm := content .objectForm
    enumsAsTypes := content .enumsAsTypes
    scalars := content .scalars
    scalarSchemas := content .scalarSchemas
    directives := content .directives
    rejectEmptyStrings := content .rejectEmptyStrings
    importFrom := content .importFrom
    emitObjects := content .emitObjects
    typesPrefix := content .typesPrefix
    typesSuffix := content .typesSuffix }

@[simp] theorem field_ofFields (content : (k : Key) → k.Content) (k : Key) :
    k.field (ofFields content) = content k := by
  cases k <;> rfl

/-- The content of a key in a table: its default where the key is left out. -/
def keyContent? (dialect : Dialect) (entries : List (String × Setting)) (k : Key) :
    Option k.Content :=
  match entries.lookup k.name with
  | none => some (k.field {})
  | some s => k.read dialect s

variable {dialect : Dialect} {entries others : List (String × Setting)} {settings : Settings}

/-- Settings are read field by field. -/
theorem ofSetting?_eq_some_iff_keyContent? :
    ofSetting? dialect (.table entries) = some settings ↔
      ∀ k, keyContent? dialect entries k = some (k.field settings) := by
  simp only [ofSetting?, Option.bind_eq_bind, Option.bind_eq_some_iff, Option.some.injEq]
  constructor
  · rintro ⟨_, h₁, _, h₂, _, h₃, _, h₄, _, h₅, _, h₆, _, h₇, _, h₈, _, h₉, _, h₁₀, _, h₁₁, rfl⟩ k
    cases k <;> assumption
  · intro h
    exact ⟨_, h .backend, _, h .objectForm, _, h .enumsAsTypes, _, h .scalars, _,
      h .scalarSchemas, _, h .directives, _, h .rejectEmptyStrings, _, h .importFrom, _,
      h .emitObjects, _, h .typesPrefix, _, h .typesSuffix, rfl⟩

/-- A configuration gives settings as soon as each of its keys gives its content. -/
theorem isSome_ofSetting?_iff :
    (ofSetting? dialect (.table entries)).isSome ↔
      ∀ k, (keyContent? dialect entries k).isSome := by
  rw [Option.isSome_iff_exists]
  simp only [ofSetting?_eq_some_iff_keyContent?]
  constructor
  · rintro ⟨settings, h⟩ k
    rw [h k]
    rfl
  · intro h
    refine ⟨ofFields fun k => (keyContent? dialect entries k).get (h k), fun k => ?_⟩
    rw [field_ofFields, Option.some_get]

theorem ofSetting?_congr (h : ∀ k : Key, others.lookup k.name = entries.lookup k.name) :
    ofSetting? dialect (.table others) = ofSetting? dialect (.table entries) := by
  ext settings
  simp only [ofSetting?_eq_some_iff_keyContent?, keyContent?, h]

end Settings

/-! Entries with distinct keys. -/

section lookup

variable {α : Type} {table other : List (String × α)} {key : String}

theorem Table.lookup_eq_some_iff_mem (h : (table.map Prod.fst).Nodup) {value : α} :
    table.lookup key = some value ↔ (key, value) ∈ table := by
  refine ⟨mem_of_lookup_eq_some, fun hmem => ?_⟩
  induction table with
  | nil => cases hmem
  | cons entry rest ih =>
    obtain ⟨hentry, hrest⟩ := List.nodup_cons.mp h
    rcases List.mem_cons.mp hmem with rfl | hmem
    · exact List.lookup_cons_self
    · have hne : (key == entry.1) = false := by
        rw [beq_eq_false_iff_ne]
        rintro rfl
        exact hentry (List.mem_map.mpr ⟨_, hmem, rfl⟩)
      rw [List.lookup_cons, hne]
      exact ih hrest hmem

theorem Table.lookup_eq_none_iff_forall :
    table.lookup key = none ↔ ∀ value, (key, value) ∉ table := by
  rw [List.lookup_eq_none_iff]
  constructor
  · intro h value hmem
    simpa using h _ hmem
  · rintro h ⟨name, value⟩ hmem
    rw [bne_iff_ne]
    rintro rfl
    exact h value hmem

theorem Table.lookup_of_perm (h : (table.map Prod.fst).Nodup) (hperm : other.Perm table) :
    other.lookup key = table.lookup key := by
  have hother : (other.map Prod.fst).Nodup := (hperm.map Prod.fst).nodup_iff.mpr h
  ext value
  rw [lookup_eq_some_iff_mem hother, lookup_eq_some_iff_mem h, hperm.mem_iff]

theorem Table.lookup_insert {front back : List (String × α)} {name : String} (h : key ≠ name)
    (value : α) : (front ++ (name, value) :: back).lookup key = (front ++ back).lookup key := by
  rw [List.lookup_append, List.lookup_append, List.lookup_cons, beq_eq_false_iff_ne.mpr h]

end lookup

namespace Settings

variable {dialect : Dialect} {entries : List (String × Setting)}

/-- The only shape that is not looked at is that of an object form in a table. -/
theorem Key.reads_of_mem (hform : ∀ table, ("export_type", .table table) ∉ entries) (k : Key)
    {s : Setting} (hs : (k.name, s) ∈ entries) :
    Setting.Reads (k.read dialect) k.Admits k.write s := by
  apply k.reads dialect
  rintro rfl table rfl
  exact hform table hs

/-- A key is left out, or it has one value. -/
theorem keyContent?_cases (dialect : Dialect) (hkeys : (entries.map Prod.fst).Nodup) (k : Key) :
    ((∀ s, (k.name, s) ∉ entries) ∧ keyContent? dialect entries k = some (k.field {})) ∨
      ∃ s, (∀ t, (k.name, t) ∈ entries ↔ t = s) ∧
        keyContent? dialect entries k = k.read dialect s := by
  rw [keyContent?]
  cases hlookup : entries.lookup k.name with
  | none => exact .inl ⟨Table.lookup_eq_none_iff_forall.mp hlookup, rfl⟩
  | some s =>
    refine .inr ⟨s, fun t => ?_, rfl⟩
    rw [← Table.lookup_eq_some_iff_mem hkeys, hlookup, Option.some.injEq, eq_comm]

/-- A configuration gives settings exactly if every key that it has and that is known has a value of
its shape. The fields of the settings are then what these values say, and defaults for the other keys.
Neither the rest of the configuration nor its order matters for a field, and unknown keys matter for
none. A rule of a directive is of the kind whose shape it has. -/
theorem ofSetting?_key_by_key (dialect : Dialect) {entries : List (String × Setting)}
    (hkeys : (entries.map Prod.fst).Nodup)
    (hform : ∀ table, ("export_type", .table table) ∉ entries) :
    ((ofSetting? dialect (.table entries)).isSome ↔
      ∀ (k : Key) (s : Setting), (k.name, s) ∈ entries → k.Admits s) ∧
    (∀ settings, ofSetting? dialect (.table entries) = some settings ↔
      ∀ k : Key, (∀ s, (k.name, s) ∈ entries → s = k.write (k.field settings)) ∧
        ((∀ s, (k.name, s) ∉ entries) → k.field settings = k.field {})) ∧
    (∀ others settings settings', ofSetting? dialect (.table entries) = some settings →
      ofSetting? dialect (.table others) = some settings' →
      ∀ k : Key, others.lookup k.name = entries.lookup k.name →
        k.field settings' = k.field settings) ∧
    (∀ others, others.Perm entries →
      ofSetting? dialect (.table others) = ofSetting? dialect (.table entries)) ∧
    (∀ front back key s, entries = front ++ back → (∀ k : Key, k.name ≠ key) →
      ofSetting? dialect (.table (front ++ (key, s) :: back)) =
        ofSetting? dialect (.table entries)) ∧
    (∀ s,
      (∀ name, ArgumentRule.ofSetting? s = some (.method name) ↔ s = .text name) ∧
      (∀ parts, ArgumentRule.ofSetting? s = some (.call parts) ↔ s = .ofList .text parts) ∧
      (∀ choices, ArgumentRule.ofSetting? s = some (.byValue choices) ↔
        s = .ofTable ChoiceRule.toSetting choices) ∧
      (∀ name, ChoiceRule.ofSetting? s = some (.method name) ↔ s = .text name) ∧
      (∀ parts, ChoiceRule.ofSetting? s = some (.call parts) ↔ s = .ofList .text parts)) ∧
    (∀ text, Toml.read? text = some (.table entries) →
      ofToml? text = ofSetting? .toml (.table entries)) ∧
    (∀ members, Setting.ofMembers members = entries →
      ofJson? (.object members) = ofSetting? .json (.table entries)) := by
  have hreads (k : Key) {s : Setting} (h : ∀ t, (k.name, t) ∈ entries ↔ t = s) :
      Setting.Reads (k.read dialect) k.Admits k.write s :=
    k.reads_of_mem hform ((h s).mpr rfl)
  refine ⟨?_, fun settings => ?_, ?_, ?_, ?_, ?_, ?_, ?_⟩
  · rw [isSome_ofSetting?_iff]
    refine forall_congr' fun k => ?_
    rcases keyContent?_cases dialect hkeys k with ⟨hnone, hcontent⟩ | ⟨s, hone, hcontent⟩
    · simp [hcontent, hnone]
    · simp [hcontent, hone, (hreads k hone).isSome]
  · rw [ofSetting?_eq_some_iff_keyContent?]
    refine forall_congr' fun k => ?_
    rcases keyContent?_cases dialect hkeys k with ⟨hnone, hcontent⟩ | ⟨s, hone, hcontent⟩
    · simp [hcontent, hnone, eq_comm]
    · simp [hcontent, hone, (hreads k hone).eq_some]
  · intro others settings settings' h h' k hlookup
    rw [ofSetting?_eq_some_iff_keyContent?] at h h'
    have hcontent := h' k
    rw [keyContent?, hlookup, ← keyContent?, h k] at hcontent
    exact (Option.some.inj hcontent).symm
  · intro others hperm
    exact ofSetting?_congr fun k => Table.lookup_of_perm hkeys hperm
  · rintro front back key s rfl hunknown
    exact ofSetting?_congr fun k => Table.lookup_insert (hunknown k) s
  · intro s
    have hargument := (Setting.reads_argumentRule s).eq_some
    have hchoice := (Setting.reads_choiceRule s).eq_some
    exact ⟨fun _ => hargument _, fun _ => hargument _, fun _ => hargument _, fun _ => hchoice _,
      fun _ => hchoice _⟩
  · intro text htext
    rw [ofToml?, htext]
    rfl
  · rintro members rfl
    rfl

/-- Keys in any order, with one that is not known. -/
theorem ofSetting?_key_by_key_constraint :
    let entries : List (String × Setting) :=
      [("types_prefix", .text "I"), ("threads", .number),
        ("directives", .table [("constraint", .table [("minLength", .text "min"),
          ("format", .table [("email", .text "email"), ("uri", .list [.text "url"])])])]),
        ("export_type", .text "const")]
    (entries.map Prod.fst).Nodup ∧ (∀ table, ("export_type", .table table) ∉ entries) ∧
      ofSetting? .toml (.table entries) = some
        { objectForm := .const
          directives := [("constraint", [("minLength", .method "min"),
            ("format", .byValue [("email", .method "email"), ("uri", .call ["url"])])])]
          typesPrefix := "I" } := by
  intro entries
  have hkeys : (entries.map Prod.fst).Nodup := by decide
  have hform : ∀ table, ("export_type", .table table) ∉ entries := by simp [entries]
  refine ⟨hkeys, hform, ((ofSetting?_key_by_key .toml hkeys hform).2.1 _).mpr fun k => ?_⟩
  cases k <;> simp [entries, Key.name, Key.field, Key.write, Setting.ofTable, Setting.ofList,
    ArgumentRule.toSetting, ChoiceRule.toSetting, ObjectForm.toSetting, ObjectForm.name] <;> rfl

end Settings
end ValidatorGen
