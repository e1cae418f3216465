import ValidatorGen.Proofs.Json.RoundTrip
import ValidatorGen.Proofs.Schema.TypeGrammar
import ValidatorGen.Schema.Document

/-! Schemas survive their documents. Level by level, an item is read back from what is written for
it exactly when its parts are; at the bottom the readers of types and of values decide. -/
namespace ValidatorGen
open ValidatorGen.Json

namespace Json.Value

@[simp] theorem string?_toTree (s : String) : (Value.string s).toTree.string? = some s := rfl

@[simp] theorem items?_toTree (items : List Value) :
    (Value.array items).toTree.items? = some (items.map toTree) := by
  rw [toTree, toTrees_eq_map, Tree.items?]

@[simp] theorem members?_toTree (members : List (String × Value)) :
    (Value.object members).toTree.members? =
      some (members.map fun member => (member.1, member.2.toTree)) := by
  rw [toTree, toMemberTrees_eq_map, Tree.members?]
  induction members with
  | nil => rfl
  | cons member rest ih =>
    rw [List.map_cons, List.mapM_cons, ih]
    rfl

@[simp] theorem entries?_toTree (keys : List String) (members : List (String × Value)) :
    (Value.object members).toTree.entries? keys =
      some (members.map fun member => (member.1, member.2.toTree)) :=
  members?_toTree members

end Json.Value

@[simp] theorem Kind.ofTree?_name (k : Kind) :
    Kind.ofTree? (Value.string k.name).toTree = some k :=
  Kind.ofName?_name k

/-! The argument values of a document, and what its other levels add around them. -/

def Field.arguments (f : Field) : List Argument :=
  f.directives.flatMap (·.arguments)

def Definition.arguments (d : Definition) : List Argument :=
  d.fields.flatMap (·.arguments)

def Schema.arguments (s : Schema) : List Argument :=
  s.definitions.flatMap (·.arguments)

/-- A property of values with a number of levels: texts have it at any number, arrays and objects
have it exactly when their parts have it one level below. -/
structure Hereditary (P : Nat → Value → Prop) : Prop where
  string : ∀ n s, P n (.string s)
  array : ∀ n items, P (n + 1) (.array items) ↔ ∀ item ∈ items, P n item
  object : ∀ n members, P (n + 1) (.object members) ↔ ∀ member ∈ members, P n member.2

theorem hereditary_exact : Hereditary fun _ v => v.Exact where
  string _ _ := trivial
  array _ _ := Value.exactItems_iff
  object _ _ := Value.exactMembers_iff

theorem hereditary_depth_le : Hereditary fun n v => v.depth ≤ n where
  string _ _ := Nat.zero_le _
  array _ _ := Value.depth_array_le
  object _ _ := Value.depth_object_le

namespace Hereditary

variable {P : Nat → Value → Prop} {n : Nat}

theorem listMember (h : Hereditary P) {key : String} {items : List Value} :
    (∀ member ∈ listMember key items, P (n + 1) member.2) ↔ ∀ item ∈ items, P n item := by
  by_cases hempty : items = []
  · simp [ValidatorGen.listMember, hempty]
  · simp [ValidatorGen.listMember, hempty, h.array]

theorem argument (h : Hereditary P) {a : Argument} : P (n + 1) a.toJson ↔ P n a.value := by
  simp [Argument.toJson, h.object, h.string]

theorem directive (h : Hereditary P) {d : Directive} :
    P (n + 3) d.toJson ↔ ∀ a ∈ d.arguments, P n a.value := by
  rw [Directive.toJson, h.object, List.forall_mem_cons, h.listMember, List.forall_mem_map]
  simp [h.string, h.argument]

theorem field (h : Hereditary P) {f : Field} :
    P (n + 5) f.toJson ↔ ∀ a ∈ f.arguments, P n a.value := by
  rw [Field.toJson, h.object, List.forall_mem_cons, List.forall_mem_cons, h.listMember,
    List.forall_mem_map]
  simp only [h.string, true_and, h.directive, Field.arguments, List.forall_mem_flatMap]

theorem definition (h : Hereditary P) {d : Definition} :
    P (n + 7) d.toJson ↔ ∀ a ∈ d.arguments, P n a.value := by
  obtain ⟨name, description, body⟩ := d
  rw [Definition.arguments, List.forall_mem_flatMap]
  cases description <;> cases body <;>
    simp [Definition.toJson, Definition.fields, Body.fields, Body.members, h.object, h.array,
      h.string, h.field]

theorem schema (h : Hereditary P) {s : Schema} :
    P (n + 9) s.toJson ↔ ∀ a ∈ s.arguments, P n a.value := by
  rw [Schema.arguments, List.forall_mem_flatMap]
  simp [Schema.toJson, h.object, h.array, h.definition]

end Hereditary

/-! What the readers give back. -/

/-- A list is read back exactly when each of its items is. -/
theorem mapM_eq_some_self_iff {α : Type} {read : α → Option α} {items : List α} :
    items.mapM read = some items ↔ ∀ item ∈ items, read item = some item := by
  induction items with
  | nil => simp
  | cons item rest ih =>
    rw [List.mapM_cons]
    simp only [List.forall_mem_cons, ← ih]
    cases read item <;> cases rest.mapM read <;> simp

theorem Argument.ofTree?_toJson {room : Nat} {a : Argument} :
    Argument.ofTree? room a.toJson.toTree = some a ↔
      a.value.toTree.toValue? room = some a.value := by
  obtain ⟨name, value⟩ := a
  simp [ofTree?, toJson, Tree.required?, Option.bind_eq_some_iff]

theorem Directive.ofTree?_toJson {room : Nat} {d : Directive} :
    Directive.ofTree? room d.toJson.toTree = some d ↔
      ∀ a ∈ d.arguments, a.value.toTree.toValue? room = some a.value := by
  obtain ⟨name, arguments⟩ := d
  by_cases hempty : arguments = []
  · simp [ofTree?, toJson, listMember, Tree.required?, Tree.optional?, hempty]
  · simp [ofTree?, toJson, listMember, Tree.required?, Tree.optional?, hempty,
      Option.bind_eq_some_iff, mapM_eq_some_self_iff, Argument.ofTree?_toJson]

theorem TypeRef.ofTree?_text {t : TypeRef} :
    TypeRef.ofTree? (Value.string t.text).toTree = some t ↔ t.WellFormed := by
  rw [← read_text_eq_ok]
  cases h : TypeRef.read t.text <;> simp [ofTree?, h, Except.toOption]

theorem Field.ofTree?_toJson {room : Nat} {f : Field} :
    Field.ofTree? room f.toJson.toTree = some f ↔
      f.type.WellFormed ∧ ∀ a ∈ f.arguments, a.value.toTree.toValue? room = some a.value := by
  obtain ⟨name, type, directives⟩ := f
  rw [← TypeRef.ofTree?_text, arguments, List.forall_mem_flatMap]
  by_cases hempty : directives = []
  · simp [ofTree?, toJson, listMember, Tree.required?, Tree.optional?, hempty,
      Option.bind_eq_some_iff]
  · simp [ofTree?, toJson, listMember, Tree.required?, Tree.optional?, hempty,
      Option.bind_eq_some_iff, mapM_eq_some_self_iff, Directive.ofTree?_toJson, and_comm]

@[simp] theorem description?_none : description? none = some none := rfl

@[simp] theorem description?_string (text : String) :
    description? (some (Value.string text).toTree) = some (some text) := rfl

theorem Definition.ofTree?_toJson {room : Nat} {d : Definition} :
    Definition.ofTree? room d.toJson.toTree = some d ↔
      (d.toJson.toTree.toValue? room).isSome ∧
        ∀ f ∈ d.fields, Field.ofTree? (room - 7) f.toJson.toTree = some f := by
  obtain ⟨name, description, body⟩ := d
  cases h : (Definition.toJson ⟨name, description, body⟩).toTree.toValue? room with
  | none => simp [ofTree?, h]
  | some value =>
    simp only [ofTree?, h]
    cases description <;> cases body <;>
      simp [toJson, Body.members, Tree.required?, Tree.optional?, Definition.kind, Body.kind,
        Definition.fields, Body.fields, Body.ofMembers?, fields?, Option.bind_eq_some_iff,
        mapM_eq_some_self_iff, Function.comp_def]

theorem Schema.ofTree?_toJson {s : Schema} :
    Schema.ofTree? s.toJson.toTree = some s ↔
      ∀ d ∈ s.definitions, Definition.ofTree? (nestingLimit - 2) d.toJson.toTree = some d := by
  obtain ⟨definitions⟩ := s
  simp [ofTree?, toJson, Tree.required?, Option.bind_eq_some_iff, mapM_eq_some_self_iff]

/-! Round trips. -/

/-- The levels that an argument's value may nest: it lies nine levels below its document. -/
def argumentRoom : Nat :=
  nestingLimit - 9

def Definition.WellFormed (d : Definition) : Prop :=
  ∀ f ∈ d.fields, f.type.WellFormed

def Schema.WellFormed (s : Schema) : Prop :=
  ∀ d ∈ s.definitions, d.WellFormed

/-- No doubles stand in the value, and its objects hold their members in key order, as all objects
do that are built member by member. -/
structure Argument.Exact (a : Argument) : Prop where
  exact : a.value.Exact
  ordered : a.value.Ordered

theorem Definition.ofTree?_toJson_iff {d : Definition} (hd : ∀ a ∈ d.arguments, a.Exact) :
    Definition.ofTree? (nestingLimit - 2) d.toJson.toTree = some d ↔
      d.WellFormed ∧ ∀ a ∈ d.arguments, a.value.depth ≤ argumentRoom := by
  have hexact : d.toJson.Exact :=
    (hereditary_exact.definition (n := 0)).mpr fun a ha => (hd a ha).exact
  have hroom : d.toJson.depth ≤ nestingLimit - 2 ↔
      ∀ a ∈ d.arguments, a.value.depth ≤ argumentRoom :=
    hereditary_depth_le.definition
  have hvalues : (∀ a ∈ d.arguments, a.value.toTree.toValue? argumentRoom = some a.value) ↔
      ∀ a ∈ d.arguments, a.value.depth ≤ argumentRoom :=
    forall₂_congr fun a ha => Tree.toValue?_toTree_eq_some_iff (hd a ha).exact (hd a ha).ordered
  have hfields : (∀ f ∈ d.fields, Field.ofTree? argumentRoom f.toJson.toTree = some f) ↔
      d.WellFormed ∧ ∀ a ∈ d.arguments, a.value.depth ≤ argumentRoom := by
    rw [← hvalues, arguments, List.forall_mem_flatMap, WellFormed, ← forall₂_and]
    exact forall₂_congr fun f _ => Field.ofTree?_toJson
  have hread : Definition.ofTree? (nestingLimit - 2) d.toJson.toTree = some d ↔
      (d.toJson.toTree.toValue? (nestingLimit - 2)).isSome ∧
        ∀ f ∈ d.fields, Field.ofTree? argumentRoom f.toJson.toTree = some f :=
    Definition.ofTree?_toJson
  rw [hread, Tree.isSome_toValue?_toTree hexact, hroom, hfields, and_left_comm, and_self]

/-- The document of a schema is read as the schema itself exactly when the types of its fields are
well formed and its argument values do not nest too deeply. -/
theorem Schema.read?_write_iff_of_exact {s : Schema} (hs : ∀ a ∈ s.arguments, a.Exact) :
    Schema.read? s.write = some s ↔
      s.WellFormed ∧ ∀ a ∈ s.arguments, a.value.depth ≤ argumentRoom := by
  have hexact : s.toJson.Exact :=
    (hereditary_exact.schema (n := 0)).mpr fun a ha => (hs a ha).exact
  have hargs : ∀ d ∈ s.definitions, ∀ a ∈ d.arguments, a.Exact := List.forall_mem_flatMap.mp hs
  rw [read?, write, Tree.read?_render hexact, Option.bind_eq_bind, Option.bind_some,
    ofTree?_toJson, arguments, List.forall_mem_flatMap, WellFormed, ← forall₂_and]
  exact forall₂_congr fun d hd => Definition.ofTree?_toJson_iff (hargs d hd)

/-- A schema whose argument values fit in a document comes back from it exactly when every type of
a field has single non-null modifiers and a name at its base. -/
theorem Schema.read?_write_eq_some_iff {s : Schema} (hexact : ∀ a ∈ s.arguments, a.Exact)
    (hroom : ∀ a ∈ s.arguments, a.value.depth ≤ argumentRoom) :
    Schema.read? s.write = some s ↔ ∀ d ∈ s.definitions, ∀ f ∈ d.fields,
      f.type.SingleNonNull ∧ TypeRef.IsName f.type.baseName := by
  rw [read?_write_iff_of_exact hexact, and_iff_left hroom]
  rfl

/-- A described input object, a directive with an object for its argument, and an enumeration. -/
theorem Schema.read?_write_range :
    let bounds : Value := .object [("max", .integer ⟨9, by decide, by decide⟩)]
    let range : Directive := { name := "range", arguments := [⟨"bounds", bounds⟩] }
    let levels : Field :=
      { name := "levels", type := .nonNull (.list (.named "Level")), directives := [range] }
    let s : Schema :=
      { definitions :=
          [{ name := "Search", description := some "by level", body := .inputObject [levels] },
            { name := "Level", body := .enumeration ["LOW", "HIGH"] }] }
    (∀ a ∈ s.arguments, a.Exact) ∧ (∀ a ∈ s.arguments, a.value.depth ≤ argumentRoom) ∧
      Schema.read? s.write = some s := by
  intro bounds range levels s
  have hexact : ∀ a ∈ s.arguments, a.Exact := by
    intro a ha
    obtain rfl : a = ⟨"bounds", bounds⟩ := List.mem_singleton.mp ha
    exact ⟨⟨trivial, trivial⟩, List.pairwise_singleton _ _, trivial, trivial⟩
  have hroom : ∀ a ∈ s.arguments, a.value.depth ≤ argumentRoom := by
    intro a ha
    obtain rfl : a = ⟨"bounds", bounds⟩ := List.mem_singleton.mp ha
    decide
  have hlevels : levels.type.SingleNonNull ∧ TypeRef.IsName levels.type.baseName := by decide
  have htypes : ∀ d ∈ s.definitions, ∀ f ∈ d.fields,
      f.type.SingleNonNull ∧ TypeRef.IsName f.type.baseName := by
    simpa [s, Definition.fields, Body.fields] using hlevels
  exact ⟨hexact, hroom, (read?_write_eq_some_iff hexact hroom).mpr htypes⟩

end ValidatorGen
