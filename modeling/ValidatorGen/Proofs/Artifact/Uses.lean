import Mathlib.Logic.Relation
import ValidatorGen.Proofs.Artifact.Entries
import ValidatorGen.Proofs.Artifact.References
import ValidatorGen.Proofs.Schema.Kinds
import ValidatorGen.Proofs.Validator.Expression

/-! Uses of validators by each other. A declaration uses the validator of a field's base name as
soon as it is evaluated, unless the name stands for an input object. Where validators are functions,
such a use is a call if the name stands for an object, so only objects can call each other in a
cycle. A use is read off the base name of a field, since another validator may be spelled alike, and
the entry of the field is in the text of the declaration. -/
namespace ValidatorGen

open Relation Text

theorem Definition.kind_ne_enumeration {d : Definition} {field : Field} (h : field ∈ d.fields) :
    d.kind ≠ .enumeration := by
  intro henum
  obtain ⟨name, description, body⟩ := d
  cases body <;> cases henum
  cases h

/-- A field of the definition has a type with this base name, and no doubled modifier hides it. -/
def Definition.RefersTo (d : Definition) (name : String) : Prop :=
  ∃ field ∈ d.fields, field.type.SingleNonNull ∧ field.type.baseName = name

/-- The first object has a field of the second one. -/
structure Schema.ObjectRefersTo (s : Schema) (d e : Definition) : Prop where
  source : d ∈ s.definitions
  target : e ∈ s.definitions
  sourceKind : d.kind = .object
  targetKind : e.kind = .object
  refers : d.RefersTo e.name

namespace Environment

/-- The text shows the entry of a field, whose validator refers to this base name outside of all
deferred expressions. -/
structure EntersEagerly (env : Environment) (field : Field) (name text : String) : Prop where
  base : field.type.baseName = name
  eager : name ∈ (env.fieldTree field).eagerNames
  shown : Shown (field.name ++ ": " ++ (env.fieldTree field).spell env) text

/-- The declaration of the first definition holds an entry that refers to the validator of the
second one outside of all deferred expressions. -/
structure UsesEagerly (env : Environment) (d e : Definition) : Prop where
  source : d ∈ env.index.schema.definitions
  target : e ∈ env.index.schema.definitions
  generated : e.kind ≠ .scalar
  entered : ∃ emission, (env.emission? d).value = some emission ∧
    ∃ field ∈ d.fields, env.EntersEagerly field e.name emission.text

/-- An eager use that is a call of the validator. -/
structure CallsEagerly (env : Environment) (d e : Definition) : Prop extends
    env.UsesEagerly d e where
  called : (env.reference e.name).value.expr = env.names.validatorName e.name ++ "()"

section Texts

variable {env : Environment} {P : String → Prop} (hP : Inherited P)
include hP

theorem inherited_objectText {entries : List String} {item : String} (hmem : item ∈ entries)
    (hitem : P item) : P (env.objectText entries) := by
  have hfilled : entries.isEmpty = false := by
    simpa using List.ne_nil_of_mem hmem
  have hlines : P (Text.indent 1 (",\n".intercalate entries)) :=
    hP.indent 1 (intercalate_of_mem hP.append_left hP.append_right ",\n" hmem hitem)
  rw [objectText, hfilled]
  exact hP.append_right _ (hP.append_left _ (hP.append_right _ hlines))

section Block

variable {d : Definition} {field : Field} (hfield : field ∈ d.fields)
  (hentry : P (field.name ++ ": " ++ (env.fieldTree field).spell env))
include hfield hentry

theorem inherited_entriesWith : P (env.objectText (env.entriesWith d (env.validators d))) := by
  have hmem : entry field.name (env.fieldExpr field).value ∈
      env.entriesWith d (env.validators d) := by
    rw [entriesWith_validators]
    exact List.mem_append_right _ (List.mem_map_of_mem hfield)
  rw [spell_fieldTree] at hentry
  exact inherited_objectText hP hmem hentry

/-- A declaration has what the entry of any of its fields has. -/
theorem inherited_block : P (env.block d).text := by
  have hobject := inherited_entriesWith hP hfield hentry
  rw [env.text_block (Definition.kind_ne_enumeration hfield)]
  unfold declareObject
  cases env.settings.objectForm with
  | const =>
    exact hP.append_left _ (hP.append_right _ (hP.append_left _ hobject))
  | function =>
    have hbody := hP.indent 1 (hP.append_left "return " hobject)
    exact hP.append_left _ (hP.append_right _ (hP.append_left _ hbody))

/-- So does what a function has after its name. -/
theorem inherited_rest (hform : env.settings.objectForm = .function) {rest : String}
    (hrest : (env.block d).text =
      "export function " ++ env.names.validatorName d.name ++ "()" ++ rest) : P rest := by
  have hobject := inherited_entriesWith hP hfield hentry
  have hbody := hP.indent 1 (hP.append_left "return " hobject)
  rw [env.text_block (Definition.kind_ne_enumeration hfield),
    env.render_declareObject_function hform, String.append_right_inj] at hrest
  rw [← hrest]
  exact hP.append_right _ (hP.append_left _ hbody)

end Block

end Texts

variable {env : Environment} {s : Schema}

/-- Only the names of enumerations and objects are used eagerly. -/
theorem usesEagerly_iff (hindex : Index.ofSchema s = .ok env.index) (hs : s.NamesDistinct)
    {d e : Definition} :
    env.UsesEagerly d e ↔
      d ∈ s.declared env.settings ∧ e ∈ s.definitions ∧
        (e.kind = .enumeration ∨ e.kind = .object) ∧ d.RefersTo e.name := by
  have hschema := (Index.ofSchema_eq_ok hindex).1
  have hkind (he : e ∈ s.definitions) : env.kindOf e.name = e.kind := kindOf_of_mem hindex hs he
  constructor
  · rintro ⟨hd, he, hscalar, emission, hemission, field, hfield, -, heager, -⟩
    rw [hschema] at hd he
    have hdeclares := (env.value_emission?_eq_some_iff.mp hemission).1
    obtain ⟨hsingle, hbase, hinput⟩ := (env.mem_eagerNames_tree field _ _ _).mp heager
    rw [hkind he] at hinput
    have hkinds : e.kind = .enumeration ∨ e.kind = .object := by
      cases hk : e.kind <;> simp_all
    exact ⟨Schema.mem_declared.mpr ⟨hd, hdeclares⟩, he, hkinds, field, hfield, hsingle, hbase⟩
  · rintro ⟨hd, he, hkinds, field, hfield, hsingle, hbase⟩
    obtain ⟨hd, hdeclares⟩ := Schema.mem_declared.mp hd
    have hinput : env.kindOf e.name ≠ .inputObject := by
      rw [hkind he]
      rcases hkinds with h | h <;> simp [h]
    have hscalar : e.kind ≠ .scalar := by
      rcases hkinds with h | h <;> simp [h]
    have hemission := env.value_emission?_eq_some_iff.mpr ⟨hdeclares, rfl⟩
    have hshown : Shown (field.name ++ ": " ++ (env.fieldTree field).spell env)
        (env.block d).text :=
      inherited_block (inherited_shown _) hfield (List.infix_refl _)
    exact
      { source := hschema ▸ hd
        target := hschema ▸ he
        generated := hscalar
        entered := ⟨env.block d, hemission, field, hfield,
          { base := hbase
            eager := (env.mem_eagerNames_tree field _ _ _).mpr ⟨hsingle, hbase, hinput⟩
            shown := hshown }⟩ }

/-- A function has the call after its name, in the entry of a field. In a built-in vocabulary it
stands there word for word. -/
theorem exists_function_of_callsEagerly (hform : env.settings.objectForm = .function)
    {d e : Definition} (h : env.CallsEagerly d e) :
    ∃ emission rest, (env.emission? d).value = some emission ∧
      emission.name = env.names.validatorName d.name ∧
      emission.text = "export function " ++ emission.name ++ "()" ++ rest ∧
      ∃ field ∈ d.fields, env.EntersEagerly field e.name rest ∧
        (env.vocabulary ∈ builtins →
          Within (env.names.validatorName e.name ++ "()") (env.fieldExpr field).value ∧
          (Unbroken (env.names.validatorName e.name) →
            Within (env.names.validatorName e.name ++ "()") rest)) := by
  obtain ⟨⟨-, -, -, emission, hemission, field, hfield, henters⟩, hcalled⟩ := h
  obtain ⟨-, rfl⟩ := env.value_emission?_eq_some_iff.mp hemission
  obtain ⟨rest, hrest⟩ := env.isFunction_block hform (Definition.kind_ne_enumeration hfield)
  have hshown : Shown (field.name ++ ": " ++ (env.fieldTree field).spell env) rest :=
    inherited_rest (inherited_shown _) hfield (List.infix_refl _) hform hrest
  refine ⟨env.block d, rest, hemission, rfl, hrest, field, hfield,
    ⟨henters.base, henters.eager, hshown⟩, ?_⟩
  intro hbuiltin
  have hvalidator : Within (env.names.validatorName e.name ++ "()")
      ((env.fieldTree field).spell env) := by
    rw [← hcalled]
    exact Expression.within_spell (surrounds_of_mem_builtins hbuiltin) henters.eager
  refine ⟨env.spell_fieldTree field ▸ hvalidator, fun hname => ?_⟩
  have hcall : Unbroken (env.names.validatorName e.name ++ "()") :=
    Unbroken.append.mpr ⟨hname, by decide⟩
  exact inherited_rest (hcall.inherited_within (by simp)) hfield (.append_left _ hvalidator) hform
    hrest

section Calls

variable (hindex : Index.ofSchema s = .ok env.index) (hs : s.NamesDistinct)
  (hform : env.settings.objectForm = .function)
include hindex hs hform

theorem callsEagerly_iff {d e : Definition} :
    env.CallsEagerly d e ↔
      d ∈ s.declared env.settings ∧ e ∈ s.definitions ∧ e.kind = .object ∧ d.RefersTo e.name := by
  have hkind (he : e ∈ s.definitions) : env.kindOf e.name = e.kind := kindOf_of_mem hindex hs he
  constructor
  · rintro ⟨huses, hcalled⟩
    obtain ⟨hd, he, henum | hobject, hrefers⟩ := (usesEagerly_iff hindex hs).mp huses
    · -- an enumeration is referred to by its bare name
      rw [env.expr_reference_enumeration ((hkind he).trans henum)] at hcalled
      have := congrArg String.length hcalled
      simp at this
    · exact ⟨hd, he, hobject, hrefers⟩
  · rintro ⟨hd, he, hobject, hrefers⟩
    have huses := (usesEagerly_iff hindex hs).mpr ⟨hd, he, Or.inr hobject, hrefers⟩
    refine ⟨huses, ?_⟩
    rw [env.expr_reference_object (Or.inr ((hkind he).trans hobject)), objectReference, hform]

/-- The target of a chain of calls is an object, and so are all on the way to it. -/
theorem objectRefersTo_of_chain {d e : Definition} (hd : d.kind = .object)
    (h : TransGen env.CallsEagerly d e) : e.kind = .object ∧ TransGen s.ObjectRefersTo d e := by
  have hstep {a b : Definition} (ha : a.kind = .object) (hab : env.CallsEagerly a b) :
      s.ObjectRefersTo a b := by
    obtain ⟨hdeclared, hb, hobject, hrefers⟩ := (callsEagerly_iff hindex hs hform).mp hab
    exact ⟨(Schema.mem_declared.mp hdeclared).1, hb, ha, hobject, hrefers⟩
  induction h with
  | single hab =>
    have hab := hstep hd hab
    exact ⟨hab.targetKind, .single hab⟩
  | tail _ hbc ih =>
    have hbc := hstep ih.1 hbc
    exact ⟨hbc.targetKind, ih.2.tail hbc⟩

theorem object_of_cycle {d : Definition} (h : TransGen env.CallsEagerly d d) :
    d.kind = .object ∧ env.settings.emitObjects = true := by
  obtain ⟨c, -, hlast⟩ := TransGen.tail'_iff.mp h
  obtain ⟨b, hfirst, -⟩ := TransGen.head'_iff.mp h
  obtain ⟨-, -, hobject, -⟩ := (callsEagerly_iff hindex hs hform).mp hlast
  obtain ⟨hdeclared, -⟩ := (callsEagerly_iff hindex hs hform).mp hfirst
  have hemit := (Schema.mem_declared.mp hdeclared).2
  rw [hobject] at hemit
  exact ⟨hobject, hemit⟩

theorem exists_cycle_iff :
    (∃ d, TransGen env.CallsEagerly d d) ↔
      env.settings.emitObjects = true ∧ ∃ d, TransGen s.ObjectRefersTo d d := by
  constructor
  · rintro ⟨d, h⟩
    obtain ⟨hobject, hemit⟩ := object_of_cycle hindex hs hform h
    exact ⟨hemit, d, (objectRefersTo_of_chain hindex hs hform hobject h).2⟩
  · rintro ⟨hemit, d, h⟩
    refine ⟨d, TransGen.mono ?_ d d h⟩
    intro a b hab
    have hdeclares : env.settings.declares a.kind = true := by
      rw [hab.sourceKind]
      exact hemit
    exact (callsEagerly_iff hindex hs hform).mpr
      ⟨Schema.mem_declared.mpr ⟨hab.source, hdeclares⟩, hab.target, hab.targetKind, hab.refers⟩

end Calls

end Environment

/-- Where validators are functions, the calls outside of deferred expressions are those of objects
in the fields of declared definitions. The function of the caller has the call after its name. No
input object and no enumeration calls itself through such calls, and an object does so exactly if
objects are emitted and refer to each other in a cycle. -/
theorem undeferred_recursion_iff {s : Schema} (hs : s.NamesDistinct) {settings : Settings}
    (hform : settings.objectForm = .function) (vocabulary : Vocabulary) (names : NamingScheme) :
    ∃ index, Index.ofSchema s = .ok index ∧
      let env : Environment := { index, settings, vocabulary, names }
      (∀ field, (env.fieldExpr field).value = (env.fieldTree field).spell env) ∧
      (∀ d e, env.CallsEagerly d e ↔
        d ∈ s.declared settings ∧ e ∈ s.definitions ∧ e.kind = .object ∧ d.RefersTo e.name) ∧
      (∀ d e, env.CallsEagerly d e → ∃ emission rest, (env.emission? d).value = some emission ∧
        emission.name = names.validatorName d.name ∧
        emission.text = "export function " ++ emission.name ++ "()" ++ rest ∧
        ∃ field ∈ d.fields, env.EntersEagerly field e.name rest ∧
          (vocabulary ∈ builtins →
            Within (names.validatorName e.name ++ "()") (env.fieldExpr field).value ∧
            (Unbroken (names.validatorName e.name) →
              Within (names.validatorName e.name ++ "()") rest))) ∧
      (∀ d, TransGen env.CallsEagerly d d → d.kind = .object ∧ settings.emitObjects = true) ∧
      ((∃ d, TransGen env.CallsEagerly d d) ↔
        settings.emitObjects = true ∧ ∃ d, TransGen s.ObjectRefersTo d d) := by
  obtain ⟨index, hindex⟩ := Index.exists_ofSchema hs
  refine ⟨index, hindex, ?_⟩
  intro env
  have henv : Index.ofSchema s = .ok env.index := hindex
  refine ⟨fun field => (env.spell_fieldTree field).symm, ?_, ?_, ?_, ?_⟩
  · intro d e
    exact Environment.callsEagerly_iff henv hs hform
  · intro d e h
    exact Environment.exists_function_of_callsEagerly hform h
  · intro d h
    exact Environment.object_of_cycle henv hs hform h
  · exact Environment.exists_cycle_iff henv hs hform

/-- An input object and an object that refer to each other, and the object also to itself in a
list. -/
theorem undeferred_recursion_iff_users :
    let filter : Field := { name := "filter", type := .named "Filter" }
    let friends : Field := { name := "friends", type := .nonNull (.list (.named "User")) }
    let owner : Field := { name := "owner", type := .named "User" }
    let user : Definition := { name := "User", body := .object [filter, friends] }
    let search : Definition := { name := "Filter", body := .inputObject [owner] }
    let s : Schema := { definitions := [user, search] }
    let settings : Settings := {}
    s.NamesDistinct ∧ settings.objectForm = .function ∧
      ∃ index, Index.ofSchema s = .ok index ∧
        let env : Environment := ⟨index, settings, zod, .ofSettings settings⟩
        (∃ rest, env.text? user = some ("export function UserSchema()" ++ rest) ∧
          Within "UserSchema()" rest) ∧
        TransGen env.CallsEagerly user user ∧ ¬ TransGen env.CallsEagerly search search := by
  intro filter friends owner user search s settings
  have hs : s.NamesDistinct := by simp [Schema.NamesDistinct, s, user, search]
  have hform : settings.objectForm = .function := rfl
  obtain ⟨index, hindex, -, hcalls, hbody, hcycle, -⟩ :=
    undeferred_recursion_iff hs hform zod (.ofSettings settings)
  have hdeclared : user ∈ s.declared settings :=
    Schema.mem_declared.mpr ⟨by simp [s], rfl⟩
  have hrefers : user.RefersTo "User" :=
    ⟨friends, by simp [user, Definition.fields, Body.fields], by decide, rfl⟩
  have hcall := (hcalls user user).mpr ⟨hdeclared, by simp [s], rfl, hrefers⟩
  refine ⟨hs, hform, index, hindex, ?_, .single hcall, ?_⟩
  · obtain ⟨emission, rest, hemission, hname, htext, field, -, -, hwithin⟩ := hbody user user hcall
    have huser : (NamingScheme.ofSettings settings).validatorName "User" = "UserSchema" := by decide
    have hcalled := (hwithin (by simp [builtins])).2
    rw [huser] at hcalled
    refine ⟨rest, ?_, hcalled (by decide)⟩
    rw [Environment.text?, hemission, Option.map_some, htext, hname, huser]
    rfl
  · intro h
    cases (hcycle search h).1

/-- An object with a field of its own type calls itself whenever it is called. -/
theorem undeferred_recursion_user :
    let friend : Field := { name := "friend", type := .named "User" }
    let user : Definition := { name := "User", body := .object [friend] }
    let s : Schema := { definitions := [user] }
    let settings : Settings := {}
    s.NamesDistinct ∧ settings.objectForm = .function ∧ ∃ index, Index.ofSchema s = .ok index ∧
      let env : Environment := ⟨index, settings, zod, .ofSettings settings⟩
      env.text? user = some (unlines
        ["export function UserSchema(): z.ZodObject<Properties<User>> \x7b",
          "  return z.object(\x7b",
          "    __typename: z.literal('User').optional(),",
          "    friend: UserSchema().nullish()",
          "  \x7d)",
          "\x7d"]) ∧
        env.CallsEagerly user user ∧ TransGen env.CallsEagerly user user := by
  intro friend user s settings
  have hs : s.NamesDistinct := by simp [Schema.NamesDistinct, s]
  obtain ⟨index, hindex⟩ := Index.exists_ofSchema hs
  refine ⟨hs, rfl, index, hindex, ?_⟩
  intro env
  have henv : Index.ofSchema s = .ok env.index := hindex
  have hkind : env.kindOf "User" = .object := Environment.kindOf_eq_kindOf henv "User"
  have hfriend : (env.fieldExpr friend).value = "UserSchema().nullish()" := by
    have hreference : (env.reference "User").value.expr = "UserSchema()" := by
      rw [env.expr_reference_object (Or.inr hkind)]
      show (NamingScheme.ofSettings {}).validatorName "User" ++ "()" = "UserSchema()"
      decide
    have htree : env.fieldTree friend = .nullish (.constrained (.named "User") []) := by
      show env.namedTree friend .none "User" = _
      rw [Environment.namedTree, if_neg (by simp [hkind])]
      rfl
    rw [← env.spell_fieldTree, htree]
    simp only [Expression.spell, hreference]
    rfl
  have hentries : env.entries user =
      ["__typename: z.literal('User').optional()", "friend: UserSchema().nullish()"] := by
    show [entry "__typename" (zod.typenameTag "User"),
      entry "friend" (env.fieldExpr friend).value] = _
    rw [hfriend]
    decide
  have hstart : Unbroken zod.objectStart := by decide
  have hcalls : env.CallsEagerly user user :=
    (Environment.callsEagerly_iff henv hs rfl).mpr
      ⟨Schema.mem_declared.mpr ⟨by simp [s], rfl⟩, by simp [s], rfl, friend,
        by simp [user, Definition.fields, Body.fields], trivial, rfl⟩
  refine ⟨?_, hcalls, .single hcalls⟩
  have htext :=
    Environment.text_block_eq_unlines (d := user) (by decide) hstart hentries (by decide)
  let plain : Environment := ⟨⟨{}, ∅⟩, settings, zod, .ofSettings settings⟩
  have hlines : plain.objectLines "User"
      ["__typename: z.literal('User').optional()", "friend: UserSchema().nullish()"] =
        ["export function UserSchema(): z.ZodObject<Properties<User>> \x7b",
          "  return z.object(\x7b",
          "    __typename: z.literal('User').optional(),",
          "    friend: UserSchema().nullish()",
          "  \x7d)",
          "\x7d"] := by decide
  exact (env.text?_eq user).trans (congrArg some (htext.trans (congrArg unlines hlines)))

end ValidatorGen
