import Mathlib.Logic.Relation
import ValidatorGen.Proofs.Schema.Places

/-! Edits that no reader notices. A reader looks for the keys that it uses, one by one, so the order
of members and members under other keys make no difference to it, and an edit deep in a document
makes none to the readers above. -/
namespace ValidatorGen

open ValidatorGen.Json Json.Tree

/-- One edit of an object, or of one below it. A member is put in at the front, from where another
edit can move it. -/
inductive Edit : Place → Tree → Tree → Prop
  | permute {p : Place} {members others : List (Literal × Tree)} (h : members.Perm others) :
      Edit p (.object members) (.object others)
  | insert {p : Place} {members : List (Literal × Tree)} {key : String} {value : Tree}
      (hkey : key ∉ p.usedKeys members) (hvalue : p.Readable value) :
      Edit p (.object members) (.object ((some key, value) :: members))
  | describe {members : List (Literal × Tree)}
      (h : ∀ value, (some "description", value) ∉ members) :
      Edit .definition (.object members) (.object ((some "description", .null) :: members))
  | inside {p child : Place} {members : List (Literal × Tree)} {key : String}
      {front back : List Tree} {item other : Tree}
      (hlists : Place.Lists ((some key, .array (front ++ item :: back)) :: members) p key child)
      (h : Edit child item other) :
      Edit p (.object ((some key, .array (front ++ item :: back)) :: members))
        (.object ((some key, .array (front ++ other :: back)) :: members))

/-- Below the top of a document, an edited object denotes data exactly when the object did. -/
theorem Edit.isSome_toValue? {p : Place} {t u : Tree} (h : Edit p t u) (hp : p ≠ .document) :
    (t.toValue? p.room).isSome = (u.toValue? p.room).isSome := by
  rw [Bool.eq_iff_iff]
  induction h with
  | permute h =>
    rw [Place.room_eq, isSome_toValue?_object, isSome_toValue?_object]
    simp only [h.mem_iff]
  | @insert p members key value hkey hvalue =>
    have hvalue : (value.toValue? (p.room - 1)).isSome := hvalue.resolve_left hp
    rw [Place.room_eq, isSome_toValue?_object, isSome_toValue?_object, List.forall_mem_cons]
    simp [hvalue]
  | describe h =>
    rw [Place.room_eq, isSome_toValue?_object, isSome_toValue?_object, List.forall_mem_cons]
    simp [toValue?]
  | inside hlists h ih =>
    have ih := ih hlists.child_ne_document
    rw [Place.room_eq, isSome_toValue?_object, isSome_toValue?_object, List.forall_mem_cons,
      List.forall_mem_cons, hlists.room_eq, isSome_toValue?_array, isSome_toValue?_array]
    simp only [List.forall_mem_append, List.forall_mem_cons, ih]

namespace Place

/-- Objects that agree on the keys that the place uses. -/
structure Agree (p : Place) (members others : List (Literal × Tree)) : Prop where
  keys : members.all (·.1.isSome) = others.all (·.1.isSome)
  required : ∀ key ∈ p.requiredKeys members,
    required? key (named members) = required? key (named others)
  optional : ∀ key ∈ p.optionalKeys,
    optional? key (named members) = optional? key (named others)

theorem ofMembers?_congr {room : Nat} {members others : List (String × Tree)} {kind : Kind}
    (h : ∀ key ∈ kind.contentKey?, required? key members = required? key others) :
    Body.ofMembers? room members kind = Body.ofMembers? room others kind := by
  cases kind with
  | enumeration => simp only [Body.ofMembers?, h "values" rfl]
  | inputObject => simp only [Body.ofMembers?, fields?, h "fields" rfl]
  | object => simp only [Body.ofMembers?, fields?, h "fields" rfl]
  | scalar => rfl

theorem Agree.ofTree?_eq {p : Place} {members others : List (Literal × Tree)}
    (h : Agree p members others)
    (hdata : p ≠ .document → ((Tree.object members).toValue? p.room).isSome =
      ((Tree.object others).toValue? p.room).isSome) :
    p.ofTree? (.object members) = p.ofTree? (.object others) := by
  obtain ⟨hkeys, hrequired, hoptional⟩ := h
  cases p with
  | document =>
    have hdefinitions := hrequired "definitions" (by simp [Place.requiredKeys])
    simp only [ofTree?, Schema.ofTree?_object]
    apply bind_members?_congr hkeys
    rw [hdefinitions]
  | definition =>
    have hname := hrequired "name" (by simp [Place.requiredKeys])
    have hkind := hrequired "kind" (by simp [Place.requiredKeys])
    have hdescription := hoptional "description" (by simp [Place.optionalKeys])
    have hdata : ((Tree.object members).toValue? (nestingLimit - 2)).isSome =
        ((Tree.object others).toValue? (nestingLimit - 2)).isSome := hdata (by simp)
    simp only [ofTree?, Definition.ofTree?_object, hdata]
    split
    · apply bind_members?_congr hkeys
      rw [hname, hdescription, ← hkind]
      refine Option.bind_congr fun name _ => Option.bind_congr fun description _ =>
        Option.bind_congr fun kind hfound => ?_
      rw [ofMembers?_congr]
      intro key hkey
      have hkey : kind.contentKey? = some key := hkey
      have hfound : Definition.kind? members = some kind := hfound
      exact hrequired key (by simp [Place.requiredKeys, hfound, hkey])
    · rfl
  | field =>
    have hname := hrequired "name" (by simp [Place.requiredKeys])
    have htype := hrequired "type" (by simp [Place.requiredKeys])
    have hdirectives := hoptional "directives" (by simp [Place.optionalKeys])
    simp only [ofTree?, Field.ofTree?_object]
    apply bind_members?_congr hkeys
    rw [hname, htype, hdirectives]
  | directive =>
    have hname := hrequired "name" (by simp [Place.requiredKeys])
    have harguments := hoptional "arguments" (by simp [Place.optionalKeys])
    simp only [ofTree?, Directive.ofTree?_object]
    apply bind_members?_congr hkeys
    rw [hname, harguments]
  | argument =>
    have hname := hrequired "name" (by simp [Place.requiredKeys])
    have hvalue := hrequired "value" (by simp [Place.requiredKeys])
    simp only [ofTree?, Argument.ofTree?_object]
    apply bind_members?_congr hkeys
    rw [hname, hvalue]

theorem Agree.of_perm {p : Place} {members others : List (Literal × Tree)}
    (h : members.Perm others) : Agree p members others where
  keys := h.all_eq
  required _ _ := required?_perm (h.filterMap _)
  optional _ _ := optional?_perm (h.filterMap _)

theorem Agree.of_insert {p : Place} {members : List (Literal × Tree)} {key : String}
    (hkey : key ∉ p.usedKeys members) (value : Tree) :
    Agree p members ((some key, value) :: members) where
  keys := by simp
  required used hused := by
    have hne : key ≠ used := by
      rintro rfl
      exact hkey (List.mem_append_left _ hused)
    rw [named_cons, required?_cons_of_ne hne]
  optional used hused := by
    have hne : key ≠ used := by
      rintro rfl
      exact hkey (List.mem_append_right _ hused)
    rw [named_cons, optional?_cons_of_ne hne]

/-- A null description stands for none. -/
theorem ofTree?_describe {members : List (Literal × Tree)}
    (h : ∀ value, (some "description", value) ∉ members) :
    definition.ofTree? (.object members) =
      definition.ofTree? (.object ((some "description", .null) :: members)) := by
  have hdata := (Edit.describe h).isSome_toValue? nofun
  have hnone : ∀ value, ("description", value) ∉ named members := by
    simpa only [mem_named] using h
  have hone : optional? "description" (("description", .null) :: named members) =
      some (some .null) := by
    simp [optional?, filter_of_not_mem hnone]
  simp only [Place.room] at hdata
  simp only [ofTree?, Definition.ofTree?_object, hdata]
  split
  · apply bind_members?_congr (by simp)
    rw [named_cons, hone, optional?_of_not_mem hnone, required?_cons_of_ne (by decide),
      required?_cons_of_ne (by decide)]
    refine Option.bind_congr fun name _ => Option.bind_congr fun _ _ =>
      Option.bind_congr fun kind _ => ?_
    rw [ofMembers?_congr]
    intro key hkey
    rw [required?_cons_of_ne]
    rintro rfl
    cases kind <;> simp [Kind.contentKey?] at hkey
  · rfl

theorem ofMembers?_replace {room : Nat} {tree found : Tree}
    (h : listOf? (Field.ofTree? room) tree = listOf? (Field.ofTree? room) found)
    (members : List (String × Tree)) (kind : Kind) :
    Body.ofMembers? room (("fields", tree) :: members) kind =
      Body.ofMembers? room (("fields", found) :: members) kind := by
  cases kind with
  | enumeration =>
    apply ofMembers?_congr
    rintro key ⟨⟩
    rw [required?_cons_of_ne (by decide), required?_cons_of_ne (by decide)]
  | inputObject => simp only [Body.ofMembers?, fields?_eq, bind_required?_cons h]
  | object => simp only [Body.ofMembers?, fields?_eq, bind_required?_cons h]
  | scalar => rfl

/-- A list may hold another item that is read alike. -/
theorem ofTree?_inside {p child : Place} {members : List (Literal × Tree)} {key : String}
    {front back : List Tree} {item other : Tree}
    (hlists : Place.Lists ((some key, .array (front ++ item :: back)) :: members) p key child)
    (hedit : Edit child item other) (h : child.ofTree? item = child.ofTree? other) :
    p.ofTree? (.object ((some key, .array (front ++ item :: back)) :: members)) =
      p.ofTree? (.object ((some key, .array (front ++ other :: back)) :: members)) := by
  have hdata := (Edit.inside hlists hedit).isSome_toValue?
  cases hlists with
  | definitions =>
    simp only [ofTree?] at h
    have hlist := listOf?_replace h front back
    simp only [ofTree?, Schema.ofTree?_object]
    apply bind_members?_congr (by simp)
    simp only [named_cons, bind_required?_cons hlist]
  | fields =>
    simp only [ofTree?] at h
    have hlist := listOf?_replace h front back
    have hdata := hdata nofun
    simp only [Place.room] at hdata
    simp only [ofTree?, Definition.ofTree?_object, hdata]
    split
    · apply bind_members?_congr (by simp)
      have hname : "fields" ≠ "name" := by decide
      have hkind : "fields" ≠ "kind" := by decide
      have hdescription : "fields" ≠ "description" := by decide
      have hroom : nestingLimit - 2 - 7 = argumentRoom := rfl
      simp only [hroom, named_cons, required?_cons_of_ne hname, required?_cons_of_ne hkind,
        optional?_cons_of_ne hdescription, ofMembers?_replace hlist]
    · rfl
  | directives =>
    have hlist : optionalListOf? (Directive.ofTree? argumentRoom) (some _) =
        optionalListOf? (Directive.ofTree? argumentRoom) (some _) := listOf?_replace h front back
    have hname : "directives" ≠ "name" := by decide
    have htype : "directives" ≠ "type" := by decide
    simp only [ofTree?, Field.ofTree?_object]
    apply bind_members?_congr (by simp)
    simp only [named_cons, required?_cons_of_ne hname, required?_cons_of_ne htype,
      bind_optional?_cons hlist]
  | arguments =>
    have hlist : optionalListOf? (Argument.ofTree? argumentRoom) (some _) =
        optionalListOf? (Argument.ofTree? argumentRoom) (some _) := listOf?_replace h front back
    have hname : "arguments" ≠ "name" := by decide
    simp only [ofTree?, Directive.ofTree?_object]
    apply bind_members?_congr (by simp)
    simp only [named_cons, required?_cons_of_ne hname, bind_optional?_cons hlist]

end Place

/-- The reader of the place takes both trees for the same. -/
theorem Edit.ofTree?_eq {p : Place} {t u : Tree} (h : Edit p t u) : p.ofTree? t = p.ofTree? u := by
  induction h with
  | permute h => exact (Place.Agree.of_perm h).ofTree?_eq (Edit.permute h).isSome_toValue?
  | insert hkey hvalue =>
    exact (Place.Agree.of_insert hkey _).ofTree?_eq (Edit.insert hkey hvalue).isSome_toValue?
  | describe h => exact Place.ofTree?_describe h
  | inside hlists h ih => exact Place.ofTree?_inside hlists h ih

/-- Any number of edits, each of them made or undone. -/
def Edits (t u : Tree) : Prop :=
  Relation.EqvGen (Edit .document) t u

theorem Edits.ofTree?_eq {t u : Tree} (h : Edits t u) : Schema.ofTree? t = Schema.ofTree? u := by
  induction h with
  | rel t u h => exact h.ofTree?_eq
  | refl t => rfl
  | symm t u _ ih => exact ih.symm
  | trans t u v _ _ ih ih' => exact ih.trans ih'

end ValidatorGen
