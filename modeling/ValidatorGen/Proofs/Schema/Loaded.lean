import ValidatorGen.Proofs.Schema.RoundTrip

/-! Schemas that come from documents. At whatever place and in whichever form a document holds the
type of a field, the reader of type references is asked for it, so the types of a loaded schema are
well formed. -/
namespace ValidatorGen

open ValidatorGen.Json

theorem forall_mem_of_mapM_eq_some {α β : Type} {read : α → Option β} {P : β → Prop}
    (hread : ∀ item result, read item = some result → P result) {items : List α}
    {results : List β} (h : items.mapM read = some results) : ∀ result ∈ results, P result := by
  induction items generalizing results with
  | nil =>
    cases h
    exact List.forall_mem_nil P
  | cons item rest ih =>
    rw [List.mapM_cons, Option.bind_eq_bind, Option.bind_eq_some_iff] at h
    obtain ⟨result, hresult, h⟩ := h
    rw [Option.bind_eq_bind, Option.bind_eq_some_iff] at h
    obtain ⟨more, hmore, h⟩ := h
    cases h
    exact List.forall_mem_cons.mpr ⟨hread item result hresult, ih hmore⟩

theorem TypeRef.wellFormed_of_ofTree? {tree : Tree} {t : TypeRef}
    (h : TypeRef.ofTree? tree = some t) : t.WellFormed := by
  obtain ⟨text, -, hread⟩ := Option.bind_eq_some_iff.mp h
  have hok : TypeRef.read text = .ok t := by
    cases hresult : TypeRef.read text <;> rw [hresult] at hread <;> cases hread
    rfl
  exact (readChars_eq_ok_iff.mp (read_eq_ok.mp hok)).1

theorem Field.wellFormed_of_ofTree? {room : Nat} {tree : Tree} {f : Field}
    (h : Field.ofTree? room tree = some f) : f.type.WellFormed := by
  simp only [Field.ofTree?, Option.bind_eq_bind, Option.bind_eq_some_iff] at h
  obtain ⟨members, -, nameTree, -, name, -, typeTree, -, type, htype, list?, -, h⟩ := h
  have hwf := TypeRef.wellFormed_of_ofTree? htype
  cases list? with
  | none =>
    cases h
    exact hwf
  | some list =>
    simp only [Option.bind_eq_some_iff] at h
    obtain ⟨items, -, directives, -, h⟩ := h
    cases h
    exact hwf

theorem wellFormed_of_fields? {room : Nat} {members : List (String × Tree)} {fields : List Field}
    (h : fields? room members = some fields) : ∀ f ∈ fields, f.type.WellFormed := by
  simp only [fields?, Option.bind_eq_bind, Option.bind_eq_some_iff] at h
  obtain ⟨list, -, items, -, h⟩ := h
  exact forall_mem_of_mapM_eq_some (fun _ _ => Field.wellFormed_of_ofTree?) h

/-- Only input objects and objects take fields from a document. -/
theorem Body.wellFormed_of_ofMembers? {room : Nat} {members : List (String × Tree)} {kind : Kind}
    {body : Body} (h : Body.ofMembers? room members kind = some body) :
    ∀ f ∈ body.fields, f.type.WellFormed := by
  cases kind with
  | enumeration =>
    simp only [Body.ofMembers?, Option.bind_eq_bind, Option.bind_eq_some_iff] at h
    obtain ⟨list, -, items, -, values, -, h⟩ := h
    cases h
    exact List.forall_mem_nil _
  | inputObject =>
    obtain ⟨fields, hfields, rfl⟩ := Option.map_eq_some_iff.mp h
    exact wellFormed_of_fields? hfields
  | object =>
    obtain ⟨fields, hfields, rfl⟩ := Option.map_eq_some_iff.mp h
    exact wellFormed_of_fields? hfields
  | scalar =>
    cases h
    exact List.forall_mem_nil _

theorem Definition.wellFormed_of_ofTree? {room : Nat} {tree : Tree} {d : Definition}
    (h : Definition.ofTree? room tree = some d) : d.WellFormed := by
  simp only [Definition.ofTree?, Option.bind_eq_bind, Option.bind_eq_some_iff] at h
  obtain ⟨value, -, members, -, nameTree, -, name, -, descriptionTree, -, description, -,
    kindTree, -, kind, -, body, hbody, h⟩ := h
  cases h
  exact Body.wellFormed_of_ofMembers? hbody

theorem Schema.wellFormed_of_read? {text : String} {s : Schema} (h : Schema.read? text = some s) :
    s.WellFormed := by
  simp only [Schema.read?, Schema.ofTree?, Option.bind_eq_bind, Option.bind_eq_some_iff] at h
  obtain ⟨tree, -, members, -, list, -, items, -, definitions, hdefinitions, h⟩ := h
  cases h
  exact forall_mem_of_mapM_eq_some (fun _ _ => Definition.wellFormed_of_ofTree?) hdefinitions

end ValidatorGen
