import Mathlib.Data.List.Perm.Basic
import ValidatorGen.Schema.Document

/-! Members of objects as readers see them. A reader asks for the members under one key at a time,
so their order does not matter, nor do the members under other keys. -/
namespace ValidatorGen

open ValidatorGen.Json Json.Tree

namespace Json.Tree

/-- The members with a well-formed key. -/
def named (members : List (Literal × Tree)) : List (String × Tree) :=
  members.filterMap fun member => member.1.map (·, member.2)

@[simp] theorem named_cons (key : String) (tree : Tree) (members : List (Literal × Tree)) :
    named ((some key, tree) :: members) = (key, tree) :: named members := rfl

theorem members?_object (members : List (Literal × Tree)) :
    (object members).members? =
      if members.all (·.1.isSome) then some (named members) else none := by
  induction members with
  | nil => rfl
  | cons member rest ih =>
    obtain ⟨key, tree⟩ := member
    rw [members?] at ih ⊢
    rw [List.mapM_cons, ih]
    cases key with
    | none => rfl
    | some key => cases h : rest.all (·.1.isSome) <;> simp [h]

theorem mem_named {key : String} {tree : Tree} {members : List (Literal × Tree)} :
    (key, tree) ∈ named members ↔ (some key, tree) ∈ members := by
  simp only [named, List.mem_filterMap, Option.map_eq_some_iff, Prod.mk.injEq]
  constructor
  · rintro ⟨⟨_, _⟩, hmem, _, rfl, rfl, rfl⟩
    exact hmem
  · intro hmem
    exact ⟨_, hmem, key, rfl, rfl, rfl⟩

theorem length_filter_named (key : String) (members : List (Literal × Tree)) :
    ((named members).filter (·.1 == key)).length =
      (members.filter (·.1 == some key)).length := by
  induction members with
  | nil => rfl
  | cons member rest ih =>
    obtain ⟨name, tree⟩ := member
    cases name with
    | none => simpa [named] using ih
    | some name =>
      rw [named_cons, List.filter_cons, List.filter_cons]
      by_cases h : name = key <;> simp [h, ih]

theorem bind_members?_eq_none {α : Type} {members : List (Literal × Tree)}
    {read : List (String × Tree) → Option α} (h : read (named members) = none) :
    (object members).members?.bind read = none := by
  rw [members?_object]
  split
  · exact h
  · rfl

theorem bind_members?_congr {α : Type} {members others : List (Literal × Tree)}
    {read : List (String × Tree) → Option α}
    (hkeys : members.all (·.1.isSome) = others.all (·.1.isSome))
    (h : read (named members) = read (named others)) :
    (object members).members?.bind read = (object others).members?.bind read := by
  rw [members?_object, members?_object, hkeys]
  split
  · exact h
  · rfl

section lookup

variable {key other : String} {tree found : Tree} {members others : List (String × Tree)}

theorem required?_eq_none_of_repeated (h : 1 < (members.filter (·.1 == key)).length) :
    required? key members = none := by
  rw [required?]
  split
  · next hone => simp [hone] at h
  · rfl

theorem optional?_eq_none_of_repeated (h : 1 < (members.filter (·.1 == key)).length) :
    optional? key members = none := by
  rw [optional?]
  split
  · next hnone => simp [hnone] at h
  · next hone => simp [hone] at h
  · rfl

theorem filter_of_not_mem (h : ∀ tree, (key, tree) ∉ members) :
    members.filter (·.1 == key) = [] := by
  rw [List.filter_eq_nil_iff]
  rintro ⟨name, tree⟩ hmember hname
  obtain rfl : name = key := eq_of_beq hname
  exact h tree hmember

theorem required?_of_not_mem (h : ∀ tree, (key, tree) ∉ members) :
    required? key members = none := by
  rw [required?, filter_of_not_mem h]

theorem optional?_of_not_mem (h : ∀ tree, (key, tree) ∉ members) :
    optional? key members = some none := by
  rw [optional?, filter_of_not_mem h]

theorem required?_cons_of_ne (h : other ≠ key) :
    required? key ((other, tree) :: members) = required? key members := by
  simp [required?, h]

theorem optional?_cons_of_ne (h : other ≠ key) :
    optional? key ((other, tree) :: members) = optional? key members := by
  simp [optional?, h]

theorem eq_of_required?_of_mem (h : required? key members = some found)
    (hmem : (key, tree) ∈ members) : tree = found := by
  have hfilter : (key, tree) ∈ members.filter (·.1 == key) := by simp [hmem]
  rw [required?] at h
  split at h
  · next hone =>
    rw [hone, List.mem_singleton] at hfilter
    cases h
    exact (Prod.mk.inj hfilter).2
  · cases h

theorem eq_of_optional?_of_mem {found : Option Tree} (h : optional? key members = some found)
    (hmem : (key, tree) ∈ members) : some tree = found := by
  have hfilter : (key, tree) ∈ members.filter (·.1 == key) := by simp [hmem]
  rw [optional?] at h
  split at h
  · next hnone => simp [hnone] at hfilter
  · next hone =>
    rw [hone, List.mem_singleton] at hfilter
    cases h
    exact congrArg some (Prod.mk.inj hfilter).2
  · cases h

theorem bind_required?_eq_none {α : Type} {read : Tree → Option α}
    (hmem : (key, tree) ∈ members) (h : read tree = none) :
    (required? key members).bind read = none := by
  rw [Option.bind_eq_none_iff]
  intro found hfound
  rwa [← eq_of_required?_of_mem hfound hmem]

theorem bind_optional?_eq_none {α : Type} {read : Option Tree → Option α}
    (hmem : (key, tree) ∈ members) (h : read (some tree) = none) :
    (optional? key members).bind read = none := by
  rw [Option.bind_eq_none_iff]
  intro found hfound
  rwa [← eq_of_optional?_of_mem hfound hmem]

/-- Values that are read alike can take each other's place. -/
theorem bind_required?_cons {α : Type} {read : Tree → Option α} (h : read tree = read found) :
    (required? key ((key, tree) :: members)).bind read =
      (required? key ((key, found) :: members)).bind read := by
  simp only [required?, List.filter_cons, BEq.rfl, if_true]
  cases members.filter (·.1 == key) with
  | nil => exact h
  | cons => rfl

theorem bind_optional?_cons {α : Type} {read : Option Tree → Option α}
    (h : read (some tree) = read (some found)) :
    (optional? key ((key, tree) :: members)).bind read =
      (optional? key ((key, found) :: members)).bind read := by
  simp only [optional?, List.filter_cons, BEq.rfl, if_true]
  cases members.filter (·.1 == key) with
  | nil => exact h
  | cons => rfl

theorem filter_eq_or_repeated_of_perm (key : String) (h : members.Perm others) :
    members.filter (·.1 == key) = others.filter (·.1 == key) ∨
      1 < (members.filter (·.1 == key)).length ∧ 1 < (others.filter (·.1 == key)).length := by
  have hfilter := h.filter (·.1 == key)
  by_cases hone : (members.filter (·.1 == key)).length ≤ 1
  · left
    cases hmembers : members.filter (·.1 == key) with
    | nil =>
      rw [hmembers] at hfilter
      exact hfilter.nil_eq
    | cons member rest =>
      obtain rfl : rest = [] := by simpa [hmembers] using hone
      rw [hmembers] at hfilter
      exact (List.singleton_perm.mp hfilter)
  · right
    rw [← hfilter.length_eq, and_self]
    omega

/-- A repeated key is refused in any order of the members. -/
theorem required?_perm (h : members.Perm others) :
    required? key members = required? key others := by
  rcases filter_eq_or_repeated_of_perm key h with heq | ⟨hmembers, hothers⟩
  · rw [required?, required?, heq]
  · rw [required?_eq_none_of_repeated hmembers, required?_eq_none_of_repeated hothers]

theorem optional?_perm (h : members.Perm others) :
    optional? key members = optional? key others := by
  rcases filter_eq_or_repeated_of_perm key h with heq | ⟨hmembers, hothers⟩
  · rw [optional?, optional?, heq]
  · rw [optional?_eq_none_of_repeated hmembers, optional?_eq_none_of_repeated hothers]

end lookup

theorem isSome_toItems? {room : Nat} {items : List Tree} :
    (toItems? room items).isSome ↔ ∀ item ∈ items, (item.toValue? room).isSome := by
  induction items with
  | nil => simp [toItems?]
  | cons item rest ih =>
    rw [List.forall_mem_cons, ← ih]
    simp only [toItems?]
    cases item.toValue? room <;> cases toItems? room rest <;> simp

theorem isSome_toMembers? {room : Nat} {members : List (Literal × Tree)} :
    (toMembers? room members).isSome ↔
      ∀ member ∈ members, member.1.isSome ∧ (member.2.toValue? room).isSome := by
  induction members with
  | nil => simp [toMembers?]
  | cons member rest ih =>
    obtain ⟨key, tree⟩ := member
    rw [List.forall_mem_cons, ← ih]
    simp only [toMembers?]
    cases key <;> cases tree.toValue? room <;> cases toMembers? room rest <;> simp

theorem isSome_toValue?_array {room : Nat} {items : List Tree} :
    ((array items).toValue? (room + 1)).isSome ↔
      ∀ item ∈ items, (item.toValue? room).isSome := by
  simp [toValue?, isSome_toItems?]

theorem isSome_toValue?_object {room : Nat} {members : List (Literal × Tree)} :
    ((object members).toValue? (room + 1)).isSome ↔
      ∀ member ∈ members, member.1.isSome ∧ (member.2.toValue? room).isSome := by
  simp [toValue?, isSome_toMembers?]

/-! Lists under a key. -/

section list

variable {α : Type}

/-- The items of an array, each of them read. -/
def listOf? (read : Tree → Option α) (tree : Tree) : Option (List α) :=
  tree.items?.bind (·.mapM read)

/-- No list reads as an empty one. -/
def optionalListOf? (read : Tree → Option α) : Option Tree → Option (List α)
  | none => some []
  | some tree => listOf? read tree

theorem listOf?_replace {read : Tree → Option α} {item other : Tree} (h : read item = read other)
    (front back : List Tree) :
    listOf? read (.array (front ++ item :: back)) =
      listOf? read (.array (front ++ other :: back)) := by
  simp [listOf?, items?, List.mapM_append, List.mapM_cons, h]

theorem listOf?_eq_none {read : Tree → Option α} {items : List Tree} {item : Tree}
    (hmem : item ∈ items) (h : read item = none) : listOf? read (.array items) = none := by
  obtain ⟨front, back, rfl⟩ := List.append_of_mem hmem
  simp [listOf?, items?, List.mapM_append, List.mapM_cons, h]

end list

end Json.Tree

/-! What each reader asks of the members of an object. -/

theorem Argument.ofTree?_object (room : Nat) (members : List (Literal × Tree)) :
    Argument.ofTree? room (.object members) =
      (Tree.object members).members?.bind fun members =>
        ((required? "name" members).bind string?).bind fun name =>
          ((required? "value" members).bind (toValue? room)).map fun value =>
            { name, value } := by
  simp only [ofTree?, entries?, Option.bind_assoc, Option.bind_eq_bind, Option.map_eq_bind]
  rfl

theorem Directive.ofTree?_object (room : Nat) (members : List (Literal × Tree)) :
    Directive.ofTree? room (.object members) =
      (Tree.object members).members?.bind fun members =>
        ((required? "name" members).bind string?).bind fun name =>
          ((optional? "arguments" members).bind (optionalListOf? (Argument.ofTree? room))).map
            fun arguments => { name, arguments } := by
  simp only [ofTree?, entries?, Option.bind_assoc, Option.bind_eq_bind, Option.map_eq_bind]
  refine Option.bind_congr fun members _ => Option.bind_congr fun _ _ =>
    Option.bind_congr fun name _ => Option.bind_congr fun list? _ => ?_
  cases list? <;> simp [optionalListOf?, listOf?, Option.bind_assoc, Function.comp_def]

theorem Field.ofTree?_object (room : Nat) (members : List (Literal × Tree)) :
    Field.ofTree? room (.object members) =
      (Tree.object members).members?.bind fun members =>
        ((required? "name" members).bind string?).bind fun name =>
          ((required? "type" members).bind TypeRef.ofTree?).bind fun type =>
            ((optional? "directives" members).bind
              (optionalListOf? (Directive.ofTree? room))).map fun directives =>
                { name, type, directives } := by
  simp only [ofTree?, entries?, Option.bind_assoc, Option.bind_eq_bind, Option.map_eq_bind]
  refine Option.bind_congr fun members _ => Option.bind_congr fun _ _ =>
    Option.bind_congr fun name _ => Option.bind_congr fun _ _ => Option.bind_congr fun type _ =>
      Option.bind_congr fun list? _ => ?_
  cases list? <;> simp [optionalListOf?, listOf?, Option.bind_assoc, Function.comp_def]

theorem fields?_eq (room : Nat) (members : List (String × Tree)) :
    fields? room members = (required? "fields" members).bind (listOf? (Field.ofTree? room)) :=
  rfl

theorem Definition.ofTree?_object (room : Nat) (members : List (Literal × Tree)) :
    Definition.ofTree? room (.object members) =
      if ((Tree.object members).toValue? room).isSome then
        (Tree.object members).members?.bind fun members =>
          ((required? "name" members).bind string?).bind fun name =>
            ((optional? "description" members).bind description?).bind fun description =>
              ((required? "kind" members).bind Kind.ofTree?).bind fun kind =>
                (Body.ofMembers? (room - 7) members kind).map fun body =>
                  { name, description, body }
      else none := by
  simp only [ofTree?, Option.bind_assoc, Option.bind_eq_bind, Option.map_eq_bind]
  cases (Tree.object members).toValue? room <;> rfl

theorem Schema.ofTree?_object (members : List (Literal × Tree)) :
    Schema.ofTree? (.object members) =
      (Tree.object members).members?.bind fun members =>
        ((required? "definitions" members).bind
          (listOf? (Definition.ofTree? (nestingLimit - 2)))).map fun definitions =>
            { definitions } := by
  simp only [ofTree?, entries?, listOf?, Option.bind_assoc, Option.bind_eq_bind,
    Option.map_eq_bind]
  rfl

end ValidatorGen
