import ValidatorGen.Proofs.Json.RoundTrip
import ValidatorGen.Proofs.Schema.Edits

/-! Documents that are refused. A key that must be there is missing in some object, or a key that is
used stands there twice; the refusal of one object is that of all that it stands in. -/
namespace ValidatorGen

open ValidatorGen.Json Json.Tree

/-- A required key is missing in an object, or a used key is repeated there. -/
inductive Flawed : Place → Tree → Prop
  | missing {p : Place} {members : List (Literal × Tree)} {key : String}
      (hkey : key ∈ p.requiredKeys members) (h : ∀ value, (some key, value) ∉ members) :
      Flawed p (.object members)
  | repeated {p : Place} {members : List (Literal × Tree)} {key : String}
      (hkey : key ∈ p.usedKeys members)
      (h : 1 < (members.filter (·.1 == some key)).length) :
      Flawed p (.object members)
  | inside {p child : Place} {members : List (Literal × Tree)} {key : String} {items : List Tree}
      {item : Tree} (hlists : Place.Lists members p key child)
      (hitems : (some key, .array items) ∈ members) (hitem : item ∈ items)
      (h : Flawed child item) : Flawed p (.object members)

namespace Place

variable {p child : Place} {members : List (Literal × Tree)} {key : String}

theorem ofTree?_eq_none_of_required? (hkey : key ∈ p.requiredKeys members)
    (h : required? key (named members) = none) : p.ofTree? (.object members) = none := by
  cases p with
  | document =>
    obtain rfl : key = "definitions" := List.mem_singleton.mp hkey
    simp only [ofTree?, Schema.ofTree?_object]
    exact bind_members?_eq_none (by rw [h]; rfl)
  | definition =>
    simp only [ofTree?, Definition.ofTree?_object]
    split
    · apply bind_members?_eq_none
      rcases List.mem_append.mp hkey with hkey | hkey
      · rcases List.mem_pair.mp hkey with rfl | rfl
        · rw [h]
          rfl
        · simp only [h, Option.bind_none, Option.bind_fun_none]
      · obtain ⟨kind, hkind, hcontent⟩ := Option.bind_eq_some_iff.mp (Option.mem_toList.mp hkey)
        have hkind : (required? "kind" (named members)).bind Kind.ofTree? = some kind := hkind
        have hbody (room : Nat) : Body.ofMembers? room (named members) kind = none := by
          cases kind <;> cases hcontent <;> simp [Body.ofMembers?, fields?, h]
        simp only [hkind, Option.bind_some, hbody, Option.map_none, Option.bind_fun_none]
    · rfl
  | field =>
    simp only [ofTree?, Field.ofTree?_object]
    apply bind_members?_eq_none
    rcases List.mem_pair.mp hkey with rfl | rfl
    · rw [h]
      rfl
    · simp only [h, Option.bind_none, Option.bind_fun_none]
  | directive =>
    obtain rfl : key = "name" := List.mem_singleton.mp hkey
    simp only [ofTree?, Directive.ofTree?_object]
    exact bind_members?_eq_none (by rw [h]; rfl)
  | argument =>
    simp only [ofTree?, Argument.ofTree?_object]
    apply bind_members?_eq_none
    rcases List.mem_pair.mp hkey with rfl | rfl
    · rw [h]
      rfl
    · simp only [h, Option.bind_none, Option.map_none, Option.bind_fun_none]

theorem ofTree?_eq_none_of_optional? (hkey : key ∈ p.optionalKeys)
    (h : optional? key (named members) = none) : p.ofTree? (.object members) = none := by
  cases p with
  | document => cases hkey
  | definition =>
    obtain rfl : key = "description" := List.mem_singleton.mp hkey
    simp only [ofTree?, Definition.ofTree?_object]
    split
    · apply bind_members?_eq_none
      simp only [h, Option.bind_none, Option.bind_fun_none]
    · rfl
  | field =>
    obtain rfl : key = "directives" := List.mem_singleton.mp hkey
    simp only [ofTree?, Field.ofTree?_object]
    apply bind_members?_eq_none
    simp only [h, Option.bind_none, Option.map_none, Option.bind_fun_none]
  | directive =>
    obtain rfl : key = "arguments" := List.mem_singleton.mp hkey
    simp only [ofTree?, Directive.ofTree?_object]
    apply bind_members?_eq_none
    simp only [h, Option.bind_none, Option.map_none, Option.bind_fun_none]
  | argument => cases hkey

theorem ofTree?_eq_none_of_repeated (hkey : key ∈ p.usedKeys members)
    (h : 1 < (members.filter (·.1 == some key)).length) : p.ofTree? (.object members) = none := by
  rw [← length_filter_named] at h
  rcases List.mem_append.mp hkey with hkey | hkey
  · exact ofTree?_eq_none_of_required? hkey (required?_eq_none_of_repeated h)
  · exact ofTree?_eq_none_of_optional? hkey (optional?_eq_none_of_repeated h)

/-- A list that holds a refused item is refused. -/
theorem ofTree?_eq_none_of_inside {items : List Tree} {item : Tree}
    (hlists : Place.Lists members p key child)
    (hitems : (some key, .array items) ∈ members) (hitem : item ∈ items)
    (h : child.ofTree? item = none) : p.ofTree? (.object members) = none := by
  have hmem := mem_named.mpr hitems
  cases hlists with
  | definitions =>
    simp only [ofTree?] at h
    have hlist := bind_required?_eq_none hmem (listOf?_eq_none hitem h)
    simp only [ofTree?, Schema.ofTree?_object]
    exact bind_members?_eq_none (by rw [hlist]; rfl)
  | @fields kind hkind hcontent =>
    have hlist : fields? argumentRoom (named members) = none :=
      bind_required?_eq_none hmem (listOf?_eq_none hitem h)
    have hkind : (required? "kind" (named members)).bind Kind.ofTree? = some kind := hkind
    have hbody : Body.ofMembers? (nestingLimit - 2 - 7) (named members) kind = none := by
      cases kind with
      | inputObject => exact congrArg (Option.map Body.inputObject) hlist
      | object => exact congrArg (Option.map Body.object) hlist
      | _ => simp [Kind.contentKey?] at hcontent
    simp only [ofTree?, Definition.ofTree?_object]
    split
    · apply bind_members?_eq_none
      simp only [hkind, Option.bind_some, hbody, Option.map_none, Option.bind_fun_none]
    · rfl
  | directives =>
    have hlist : (optional? "directives" (named members)).bind
        (optionalListOf? (Directive.ofTree? argumentRoom)) = none :=
      bind_optional?_eq_none hmem (listOf?_eq_none hitem h)
    simp only [ofTree?, Field.ofTree?_object]
    apply bind_members?_eq_none
    simp only [hlist, Option.map_none, Option.bind_fun_none]
  | arguments =>
    have hlist : (optional? "arguments" (named members)).bind
        (optionalListOf? (Argument.ofTree? argumentRoom)) = none :=
      bind_optional?_eq_none hmem (listOf?_eq_none hitem h)
    simp only [ofTree?, Directive.ofTree?_object]
    apply bind_members?_eq_none
    simp only [hlist, Option.map_none, Option.bind_fun_none]

end Place

theorem Flawed.ofTree?_eq_none {p : Place} {t : Tree} (h : Flawed p t) : p.ofTree? t = none := by
  induction h with
  | missing hkey h =>
    refine Place.ofTree?_eq_none_of_required? hkey (required?_of_not_mem fun value hmem => ?_)
    exact h value (mem_named.mp hmem)
  | repeated hkey h => exact Place.ofTree?_eq_none_of_repeated hkey h
  | inside hlists hitems hitem h ih => exact Place.ofTree?_eq_none_of_inside hlists hitems hitem ih

/-- What a document gives, and whether it gives a schema, does not change with edits: the order of
members, members that are not used and a null description. A document in which an object lacks a
required key or repeats a used one gives none. -/
theorem Schema.read?_of_edits :
    (∀ {text other : String} {t u : Tree}, Tree.read? text = some t → Tree.read? other = some u →
      Edits t u → Schema.read? text = Schema.read? other) ∧
    ∀ {text : String} {t : Tree}, Tree.read? text = some t → Flawed .document t →
      Schema.read? text = none := by
  constructor
  · intro text other t u htext hother hedits
    rw [read?, read?, htext, hother]
    exact hedits.ofTree?_eq
  · intro text t htext hflawed
    rw [read?, htext]
    exact hflawed.ofTree?_eq_none

/-- An enumeration whose members are put in another order, among them a null description and two
members under a key that only other kinds use, in a document with a number beyond the doubles. Its
values are required. -/
theorem Schema.read?_of_edits_tag :
    let name : Literal × Tree := (some "name", .string (some "Tag"))
    let kind : Literal × Tree := (some "kind", .string (some "enum"))
    let values : Literal × Tree := (some "values", .array [.string (some "A")])
    let flag : Literal × Tree := (some "fields", .bool true)
    let empty : Literal × Tree := (some "fields", .array [])
    let null : Literal × Tree := (some "description", .null)
    let version : Tree := .number ⟨false, ['1'], [], some ⟨false, ['9', '9', '9']⟩⟩
    let document (tag : Tree) : Literal × Tree := (some "definitions", .array [tag])
    let t : Tree := .object [document (.object [name, kind, values])]
    let u : Tree := .object
      [(some "version", version), document (.object [values, kind, name, flag, empty, null])]
    let text := "\x7b\"definitions\": [\x7b\"name\": \"Tag\", \"kind\": \"enum\", " ++
      "\"values\": [\"A\"]\x7d]\x7d"
    let other := "\x7b\"version\": 1e999, \"definitions\": [\x7b\"values\": [\"A\"], " ++
      "\"kind\": \"enum\", \"name\": \"Tag\", \"fields\": true, \"fields\": [], " ++
      "\"description\": null\x7d]\x7d"
    let bare := "\x7b\"definitions\": [\x7b\"name\": \"Tag\", \"kind\": \"enum\"\x7d]\x7d"
    Tree.read? text = some t ∧ Tree.read? other = some u ∧ Edits t u ∧
      Schema.read? text = Schema.read? other ∧
      Tree.read? bare = some (.object [document (.object [name, kind])]) ∧
      Flawed .document (.object [document (.object [name, kind])]) ∧ Schema.read? bare = none := by
  intro name kind values flag empty null version document t u text other bare
  have htext : Tree.read? text = some t := by
    subst text t document name kind values
    cbv
  have hother : Tree.read? other = some u := by
    -- The number is read apart, and what stands after its comma too.
    let more := (" \"definitions\": [\x7b\"values\": [\"A\"], \"kind\": \"enum\", " ++
      "\"name\": \"Tag\", \"fields\": true, \"fields\": [], \"description\": null\x7d]\x7d").toList
    let digits := '1' :: 'e' :: '9' :: '9' :: '9' :: ',' :: more
    have hmore : scanMembers 135 more =
        some ([document (.object [values, kind, name, flag, empty, null])], []) := by
      subst more document name kind values flag empty null
      cbv
    have hnumber : Numeral.scan digits =
        some (⟨false, ['1'], [], some ⟨false, ['9', '9', '9']⟩⟩, ',' :: more) := by
      decide +kernel
    have hversion : scanValue 135 (' ' :: digits) = some (version, ',' :: more) := by
      have hspace : scanValue 135 (' ' :: digits) = scanValue 135 digits := rfl
      rw [hspace, scanValue_number (by decide), hnumber]
      rfl
    let label := "version".toList.flatMap Text.Quoted.escape
    have hmembers : scanMembers 136 ('"' :: (label ++ '"' :: ':' :: ' ' :: digits)) = _ :=
      scanMembers_more hversion hmore
    have hchars : other.toList = '\x7b' :: '"' :: (label ++ '"' :: ':' :: ' ' :: digits) := by
      decide +kernel
    have hlength : other.toList.length = 136 := by decide +kernel
    rw [Tree.read?, readChars?, hlength, hchars, scanValue_object, hmembers]
    rfl
  have hbare : Tree.read? bare = some (.object [document (.object [name, kind])]) := by
    subst bare document name kind
    cbv
  have hinside {item edited : Tree} (h : Edit .definition item edited) :
      Edits (.object [document item]) (.object [document edited]) :=
    .rel _ _ (@Edit.inside _ _ [] _ [] [] _ _ .definitions h)
  have hflag : Edit .definition (.object [name, kind, values])
      (.object [flag, name, kind, values]) :=
    .insert (by decide) (.inr rfl)
  have hempty : Edit .definition (.object [flag, name, kind, values])
      (.object [empty, flag, name, kind, values]) :=
    .insert (by decide) (.inr rfl)
  have hnull : Edit .definition (.object [empty, flag, name, kind, values])
      (.object [null, empty, flag, name, kind, values]) :=
    .describe (by simp [empty, flag, name, kind, values])
  have horder : Edit .definition (.object [null, empty, flag, name, kind, values])
      (.object [values, kind, name, flag, empty, null]) :=
    .permute (List.reverse_perm _).symm
  have hversion : Edit .document
      (.object [document (.object [values, kind, name, flag, empty, null])]) u :=
    .insert (by decide) (.inl rfl)
  have hedits : Edits t u :=
    ((((hinside hflag).trans _ _ _ (hinside hempty)).trans _ _ _ (hinside hnull)).trans _ _ _
      (hinside horder)).trans _ _ _ (.rel _ _ hversion)
  have hflawed : Flawed .document (.object [document (.object [name, kind])]) :=
    .inside .definitions (List.mem_singleton_self _) (List.mem_singleton_self _)
      (.missing (show "values" ∈ _ by decide) (by simp [name, kind]))
  exact ⟨htext, hother, hedits, read?_of_edits.1 htext hother hedits, hbare, hflawed,
    read?_of_edits.2 hbare hflawed⟩

end ValidatorGen
