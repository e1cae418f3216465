import ValidatorGen.Proofs.Json.Numeral
import ValidatorGen.Proofs.Json.Ordered

/-! The values that JSON text keeps, and the trees that their texts are read as. A value without
doubles whose objects stand in key order is what its tree denotes, as long as it does not nest too
deeply. -/
namespace ValidatorGen.Json

namespace Value

mutual

/-- The tree that the text of a value is read as; doubles are left out. -/
def toTree : Value → Tree
  | .null => .null
  | .bool b => .bool b
  | .integer n => .number n.numeral
  | .float _ => .null
  | .string s => .string (some s)
  | .array items => .array (toTrees items)
  | .object members => .object (toMemberTrees members)

def toTrees : List Value → List Tree
  | [] => []
  | item :: rest => toTree item :: toTrees rest

def toMemberTrees : List (String × Value) → List (Literal × Tree)
  | [] => []
  | (key, value) :: rest => (some key, toTree value) :: toMemberTrees rest

end

mutual

/-- No number in the value is a double. -/
def Exact : Value → Prop
  | .float _ => False
  | .array items => ExactItems items
  | .object members => ExactMembers members
  | _ => True

def ExactItems : List Value → Prop
  | [] => True
  | item :: rest => Exact item ∧ ExactItems rest

def ExactMembers : List (String × Value) → Prop
  | [] => True
  | (_, value) :: rest => Exact value ∧ ExactMembers rest

end

/-- Induction over a value through the items of its arrays and the members of its objects. -/
@[elab_as_elim]
theorem induct {P : Value → Prop} (null : P .null) (bool : ∀ b, P (.bool b))
    (integer : ∀ n, P (.integer n)) (float : ∀ x, P (.float x)) (string : ∀ s, P (.string s))
    (array : ∀ items, (∀ item ∈ items, P item) → P (.array items))
    (object : ∀ members, (∀ member ∈ members, P member.2) → P (.object members)) : ∀ v, P v
  | .null => null
  | .bool b => bool b
  | .integer n => integer n
  | .float x => float x
  | .string s => string s
  | .array items =>
    array items fun item _ => induct null bool integer float string array object item
  | .object members =>
    object members fun member _ => induct null bool integer float string array object member.2
decreasing_by
  · have := List.sizeOf_lt_of_mem ‹item ∈ items›
    simp only [Value.array.sizeOf_spec]
    omega
  · have hmember := List.sizeOf_lt_of_mem ‹member ∈ members›
    have hvalue : sizeOf member = 1 + sizeOf member.1 + sizeOf member.2 := rfl
    simp only [Value.object.sizeOf_spec]
    omega

theorem toTrees_eq_map (items : List Value) : toTrees items = items.map toTree := by
  induction items with
  | nil => rfl
  | cons item rest ih => simp [toTrees, ih]

theorem toMemberTrees_eq_map (members : List (String × Value)) :
    toMemberTrees members = members.map fun member => (some member.1, toTree member.2) := by
  induction members with
  | nil => rfl
  | cons member rest ih => simp [toMemberTrees, ih]

theorem exactItems_iff {items : List Value} : ExactItems items ↔ ∀ item ∈ items, item.Exact := by
  induction items with
  | nil => simp [ExactItems]
  | cons item rest ih => simp [ExactItems, ih]

theorem exactMembers_iff {members : List (String × Value)} :
    ExactMembers members ↔ ∀ member ∈ members, member.2.Exact := by
  induction members with
  | nil => simp [ExactMembers]
  | cons member rest ih => simp [ExactMembers, ih]

/-! Values told apart by their trees. -/

theorem eq_of_map_eq_map {α β : Type} {f : α → β} {items others : List α}
    (h : ∀ item ∈ items, ∀ other ∈ others, f item = f other → item = other)
    (hmap : items.map f = others.map f) : items = others := by
  induction items generalizing others with
  | nil => exact (List.map_eq_nil_iff.mp hmap.symm).symm
  | cons item rest ih =>
    obtain ⟨other, more, rfl, hother, hmore⟩ := List.map_eq_cons_iff.mp hmap.symm
    have hrest : rest = more := ih
      (fun item hitem other hother =>
        h item (List.mem_cons_of_mem _ hitem) other (List.mem_cons_of_mem _ hother)) hmore.symm
    rw [hrest, h item (by simp) other (by simp) hother.symm]

/-- The order of members does not matter here, since a tree keeps it. -/
theorem toTree_inj {v w : Value} (hv : v.Exact) (hw : w.Exact) (h : v.toTree = w.toTree) :
    v = w := by
  induction v using induct generalizing w with
  | null =>
    cases w with
    | null => rfl
    | float x => exact hw.elim
    | _ => cases h
  | bool b =>
    cases w with
    | bool c => exact congrArg bool (Tree.bool.inj h)
    | _ => cases h
  | integer n =>
    cases w with
    | integer m =>
      have hvalue := congrArg Numeral.value? (Tree.number.inj h)
      rw [Numeral.value?_numeral, Numeral.value?_numeral] at hvalue
      exact Option.some.inj hvalue
    | _ => cases h
  | float x => exact hv.elim
  | string s =>
    cases w with
    | string t => exact congrArg string (Option.some.inj (Tree.string.inj h))
    | _ => cases h
  | array items ih =>
    cases w with
    | array others =>
      have htrees := Tree.array.inj h
      rw [toTrees_eq_map, toTrees_eq_map] at htrees
      refine congrArg array (eq_of_map_eq_map (fun item hitem other hother => ?_) htrees)
      exact ih item hitem (exactItems_iff.mp hv item hitem) (exactItems_iff.mp hw other hother)
    | _ => cases h
  | object members ih =>
    cases w with
    | object others =>
      have htrees := Tree.object.inj h
      rw [toMemberTrees_eq_map, toMemberTrees_eq_map] at htrees
      refine congrArg object (eq_of_map_eq_map (fun member hmember other hother heq => ?_) htrees)
      obtain ⟨hkey, htree⟩ := Prod.mk.inj heq
      exact Prod.ext (Option.some.inj hkey)
        (ih member hmember (exactMembers_iff.mp hv member hmember)
          (exactMembers_iff.mp hw other hother) htree)
    | _ => cases h

/-! Depth. -/

theorem depthItems_le {items : List Value} {n : Nat} :
    depthItems items ≤ n ↔ ∀ item ∈ items, item.depth ≤ n := by
  induction items with
  | nil => simp [depthItems]
  | cons item rest ih => rw [depthItems, Nat.max_le, ih, List.forall_mem_cons]

theorem depthMembers_le {members : List (String × Value)} {n : Nat} :
    depthMembers members ≤ n ↔ ∀ member ∈ members, member.2.depth ≤ n := by
  induction members with
  | nil => simp [depthMembers]
  | cons member rest ih => rw [depthMembers, Nat.max_le, ih, List.forall_mem_cons]

theorem depth_array_le {items : List Value} {n : Nat} :
    (Value.array items).depth ≤ n + 1 ↔ ∀ item ∈ items, item.depth ≤ n := by
  rw [depth, Nat.add_comm, Nat.add_le_add_iff_right, depthItems_le]

theorem depth_object_le {members : List (String × Value)} {n : Nat} :
    (Value.object members).depth ≤ n + 1 ↔ ∀ member ∈ members, member.2.depth ≤ n := by
  rw [depth, Nat.add_comm, Nat.add_le_add_iff_right, depthMembers_le]

end Value

namespace Tree

theorem toItems?_map {items : List Value} {room : Nat}
    (h : ∀ item ∈ items, ∃ w, item.toTree.toValue? room = some w ∧ (item.Ordered → w = item)) :
    ∃ ws, toItems? room (items.map Value.toTree) = some ws ∧
      (Value.OrderedItems items → ws = items) := by
  induction items with
  | nil => exact ⟨[], rfl, fun _ => rfl⟩
  | cons item rest ih =>
    obtain ⟨w, hw, heq⟩ := h item (by simp)
    obtain ⟨ws, hws, heqs⟩ := ih fun item hmem => h item (by simp [hmem])
    refine ⟨w :: ws, by simp [toItems?, hw, hws], ?_⟩
    rintro ⟨hitem, hrest⟩
    rw [heq hitem, heqs hrest]

theorem toMembers?_map {members : List (String × Value)} {room : Nat}
    (h : ∀ member ∈ members,
      ∃ w, member.2.toTree.toValue? room = some w ∧ (member.2.Ordered → w = member.2)) :
    ∃ ws, toMembers? room (members.map fun member => (some member.1, member.2.toTree)) = some ws ∧
      (Value.OrderedMembers members → ws = members) := by
  induction members with
  | nil => exact ⟨[], rfl, fun _ => rfl⟩
  | cons member rest ih =>
    obtain ⟨w, hw, heq⟩ := h member (by simp)
    obtain ⟨ws, hws, heqs⟩ := ih fun member hmem => h member (by simp [hmem])
    refine ⟨(member.1, w) :: ws, by simp [toMembers?, hw, hws], ?_⟩
    rintro ⟨hmember, hrest⟩
    rw [heq hmember, heqs hrest]

/-- The tree of a value without doubles denotes data, and the value itself where its objects stand
in key order. -/
theorem exists_toValue?_toTree {v : Value} (hv : v.Exact) {room : Nat} (hroom : v.depth ≤ room) :
    ∃ w, v.toTree.toValue? room = some w ∧ (v.Ordered → w = v) := by
  induction v using Value.induct generalizing room with
  | null => exact ⟨.null, rfl, fun _ => rfl⟩
  | bool b => exact ⟨.bool b, rfl, fun _ => rfl⟩
  | integer n => exact ⟨.integer n, Numeral.value?_numeral n, fun _ => rfl⟩
  | float x => exact hv.elim
  | string s => exact ⟨.string s, rfl, fun _ => rfl⟩
  | array items ih =>
    obtain ⟨room, rfl⟩ : ∃ n, room = n + 1 := ⟨room - 1, by rw [Value.depth] at hroom; omega⟩
    have hitems := Value.depth_array_le.mp hroom
    obtain ⟨ws, hws, heq⟩ := toItems?_map fun item hmem =>
      ih item hmem (Value.exactItems_iff.mp hv item hmem) (hitems item hmem)
    refine ⟨.array ws, ?_, fun ho => by rw [heq ho]⟩
    simp [Value.toTree, Value.toTrees_eq_map, toValue?, hws]
  | object members ih =>
    obtain ⟨room, rfl⟩ : ∃ n, room = n + 1 := ⟨room - 1, by rw [Value.depth] at hroom; omega⟩
    have hmembers := Value.depth_object_le.mp hroom
    obtain ⟨ws, hws, heq⟩ := toMembers?_map fun member hmem =>
      ih member hmem (Value.exactMembers_iff.mp hv member hmem) (hmembers member hmem)
    refine ⟨.ofMembers ws, ?_, ?_⟩
    · simp [Value.toTree, Value.toMemberTrees_eq_map, toValue?, hws]
    · rintro ⟨hsorted, hordered⟩
      rw [heq hordered, Value.ofMembers_of_pairwise hsorted]

theorem exists_of_toItems?_map {items : List Value} {room : Nat} {ws : List Value}
    (h : toItems? room (items.map Value.toTree) = some ws) :
    ∀ item ∈ items, ∃ w, item.toTree.toValue? room = some w := by
  induction items generalizing ws with
  | nil => simp
  | cons item rest ih =>
    simp only [List.map_cons, toItems?, Option.bind_eq_bind, Option.bind_eq_some_iff] at h
    obtain ⟨w, hw, ws, hws, -⟩ := h
    exact List.forall_mem_cons.mpr ⟨⟨w, hw⟩, ih hws⟩

theorem exists_of_toMembers?_map {members : List (String × Value)} {room : Nat}
    {ws : List (String × Value)}
    (h : toMembers? room (members.map fun member => (some member.1, member.2.toTree)) = some ws) :
    ∀ member ∈ members, ∃ w, member.2.toTree.toValue? room = some w := by
  induction members generalizing ws with
  | nil => simp
  | cons member rest ih =>
    simp only [List.map_cons, toMembers?, Option.bind_eq_bind, Option.bind_eq_some_iff,
      Option.bind_some] at h
    obtain ⟨w, hw, ws, hws, -⟩ := h
    exact List.forall_mem_cons.mpr ⟨⟨w, hw⟩, ih hws⟩

theorem depth_le_of_toValue?_toTree {v w : Value} {room : Nat}
    (h : v.toTree.toValue? room = some w) : v.depth ≤ room := by
  induction v using Value.induct generalizing room w with
  | array items ih =>
    rw [Value.toTree, Value.toTrees_eq_map, toValue?] at h
    obtain ⟨hroom, ws, hws, -⟩ : room ≠ 0 ∧
        ∃ ws, toItems? (room - 1) (items.map Value.toTree) = some ws ∧ .array ws = w := by
      simpa using h
    obtain ⟨room, rfl⟩ := Nat.exists_eq_succ_of_ne_zero hroom
    refine Value.depth_array_le.mpr fun item hmem => ?_
    obtain ⟨w, hw⟩ := exists_of_toItems?_map hws item hmem
    exact ih item hmem hw
  | object members ih =>
    rw [Value.toTree, Value.toMemberTrees_eq_map, toValue?] at h
    obtain ⟨hroom, ws, hws, -⟩ : room ≠ 0 ∧ ∃ ws,
        toMembers? (room - 1) (members.map fun member => (some member.1, member.2.toTree)) =
          some ws ∧ Value.ofMembers ws = w := by
      simpa using h
    obtain ⟨room, rfl⟩ := Nat.exists_eq_succ_of_ne_zero hroom
    refine Value.depth_object_le.mpr fun member hmem => ?_
    obtain ⟨w, hw⟩ := exists_of_toMembers?_map hws member hmem
    exact ih member hmem hw
  | null | bool | integer | float | string => exact Nat.zero_le _

theorem isSome_toValue?_toTree {v : Value} (hv : v.Exact) {room : Nat} :
    (v.toTree.toValue? room).isSome ↔ v.depth ≤ room := by
  constructor
  · intro h
    obtain ⟨w, hw⟩ := Option.isSome_iff_exists.mp h
    exact depth_le_of_toValue?_toTree hw
  · intro hroom
    obtain ⟨w, hw, -⟩ := exists_toValue?_toTree hv hroom
    rw [hw, Option.isSome_some]

/-- A value comes back from its tree exactly when there is room for it. -/
theorem toValue?_toTree_eq_some_iff {v : Value} (hv : v.Exact) (ho : v.Ordered) {room : Nat} :
    v.toTree.toValue? room = some v ↔ v.depth ≤ room := by
  constructor
  · exact depth_le_of_toValue?_toTree
  · intro hroom
    obtain ⟨w, hw, heq⟩ := exists_toValue?_toTree hv hroom
    rw [hw, heq ho]

end Tree

end ValidatorGen.Json
