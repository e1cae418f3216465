import ValidatorGen.Json.Tree

/-! Values whose objects stand in key order: all data that is read, since each object is put
together member by member. -/
namespace ValidatorGen.Json

namespace Value

mutual

/-- The members of every object stand in strict key order. -/
def Ordered : Value → Prop
  | .array items => OrderedItems items
  | .object members => members.Pairwise (·.1 < ·.1) ∧ OrderedMembers members
  | _ => True

def OrderedItems : List Value → Prop
  | [] => True
  | item :: rest => Ordered item ∧ OrderedItems rest

def OrderedMembers : List (String × Value) → Prop
  | [] => True
  | (_, value) :: rest => Ordered value ∧ OrderedMembers rest

end

theorem insertMember_of_lt {key : String} {value : Value} {members : List (String × Value)}
    (h : ∀ member ∈ members, member.1 < key) :
    insertMember key value members = members ++ [(key, value)] := by
  induction members with
  | nil => rfl
  | cons member rest ih =>
    have hlt : member.1 < key := h member (by simp)
    have hne : key ≠ member.1 := by
      rintro rfl
      exact String.lt_irrefl _ hlt
    rw [insertMember, if_neg hne, if_neg (String.lt_asymm hlt),
      ih fun member hmem => h member (by simp [hmem])]
    rfl

theorem foldl_insertMember {sorted members : List (String × Value)}
    (h : (sorted ++ members).Pairwise (·.1 < ·.1)) :
    members.foldl (fun sorted member => insertMember member.1 member.2 sorted) sorted =
      sorted ++ members := by
  induction members generalizing sorted with
  | nil => simp
  | cons member rest ih =>
    have hlt : ∀ m ∈ sorted, m.1 < member.1 := fun m hm =>
      (List.pairwise_append.mp h).2.2 m hm member (by simp)
    rw [List.foldl_cons, insertMember_of_lt hlt, ih (by simpa using h)]
    simp

theorem ofMembers_of_pairwise {members : List (String × Value)}
    (h : members.Pairwise (·.1 < ·.1)) : ofMembers members = .object members := by
  rw [ofMembers, foldl_insertMember (by simpa using h)]
  rfl

theorem lt_of_mem_insertMember {key low : String} {value : Value} {members : List (String × Value)}
    (hkey : low < key) (h : ∀ member ∈ members, low < member.1) :
    ∀ member ∈ insertMember key value members, low < member.1 := by
  fun_induction insertMember key value members with
  | case1 => simpa using hkey
  | case2 v rest => exact List.forall_mem_cons.mpr ⟨hkey, (List.forall_mem_cons.mp h).2⟩
  | case3 k v rest hne hlt => exact List.forall_mem_cons.mpr ⟨hkey, h⟩
  | case4 k v rest hne hnlt ih =>
    obtain ⟨hk, hrest⟩ := List.forall_mem_cons.mp h
    exact List.forall_mem_cons.mpr ⟨hk, ih hrest⟩

theorem pairwise_insertMember {key : String} {value : Value} {members : List (String × Value)}
    (h : members.Pairwise (·.1 < ·.1)) :
    (insertMember key value members).Pairwise (·.1 < ·.1) := by
  fun_induction insertMember key value members with
  | case1 => exact List.pairwise_singleton _ _
  | case2 v rest => exact List.pairwise_cons.mpr (List.pairwise_cons.mp h)
  | case3 k v rest hne hlt =>
    refine List.pairwise_cons.mpr ⟨List.forall_mem_cons.mpr ⟨hlt, fun member hmem => ?_⟩, h⟩
    exact String.lt_trans hlt ((List.pairwise_cons.mp h).1 member hmem)
  | case4 k v rest hne hnlt ih =>
    obtain ⟨hk, hrest⟩ := List.pairwise_cons.mp h
    have hle : ¬key ≤ k := fun hle => hne (String.le_antisymm hle (String.not_lt.mp hnlt))
    have hlt : k < key := String.not_le.mp hle
    exact List.pairwise_cons.mpr ⟨lt_of_mem_insertMember hlt hk, ih hrest⟩

theorem orderedMembers_insertMember {key : String} {value : Value}
    {members : List (String × Value)} (hvalue : value.Ordered) (h : OrderedMembers members) :
    OrderedMembers (insertMember key value members) := by
  fun_induction insertMember key value members with
  | case1 => exact ⟨hvalue, trivial⟩
  | case2 v rest => exact ⟨hvalue, h.2⟩
  | case3 k v rest hne hlt => exact ⟨hvalue, h⟩
  | case4 k v rest hne hnlt ih => exact ⟨h.1, ih h.2⟩

theorem ordered_foldl_insertMember {members sorted : List (String × Value)}
    (h : OrderedMembers members) (hsorted : (Value.object sorted).Ordered) :
    (Value.object (members.foldl (fun sorted member => insertMember member.1 member.2 sorted)
      sorted)).Ordered := by
  induction members generalizing sorted with
  | nil => exact hsorted
  | cons member rest ih =>
    exact ih h.2
      ⟨pairwise_insertMember hsorted.1, orderedMembers_insertMember h.1 hsorted.2⟩

theorem ordered_ofMembers {members : List (String × Value)} (h : OrderedMembers members) :
    (ofMembers members).Ordered :=
  ordered_foldl_insertMember h ⟨.nil, trivial⟩

end Value

theorem Numeral.ordered_of_value? {n : Numeral} {v : Value} (h : n.value? = some v) :
    v.Ordered := by
  rw [value?] at h
  split at h
  · cases h
    trivial
  · obtain ⟨x, -, rfl⟩ := Option.map_eq_some_iff.mp h
    trivial

namespace Tree

mutual

/-- The data of a tree stands in key order. -/
theorem ordered_of_toValue? {room : Nat} {v : Value} :
    ∀ {t : Tree}, t.toValue? room = some v → v.Ordered
  | .null, h | .bool _, h => by
    cases h
    trivial
  | .number n, h => Numeral.ordered_of_value? h
  | .string s, h => by
    obtain ⟨text, -, rfl⟩ := Option.map_eq_some_iff.mp h
    trivial
  | .array items, h => by
    rw [toValue?] at h
    split at h
    · cases h
    · obtain ⟨vs, hvs, rfl⟩ := Option.map_eq_some_iff.mp h
      exact orderedItems_of_toItems? hvs
  | .object members, h => by
    rw [toValue?] at h
    split at h
    · cases h
    · obtain ⟨vs, hvs, rfl⟩ := Option.map_eq_some_iff.mp h
      exact Value.ordered_ofMembers (orderedMembers_of_toMembers? hvs)

theorem orderedItems_of_toItems? {room : Nat} {vs : List Value} :
    ∀ {ts : List Tree}, toItems? room ts = some vs → Value.OrderedItems vs
  | [], h => by
    cases h
    trivial
  | t :: ts, h => by
    simp only [toItems?, Option.bind_eq_bind, Option.bind_eq_some_iff] at h
    obtain ⟨w, hw, ws, hws, heq⟩ := h
    cases heq
    exact ⟨ordered_of_toValue? hw, orderedItems_of_toItems? hws⟩

theorem orderedMembers_of_toMembers? {room : Nat} {vs : List (String × Value)} :
    ∀ {ts : List (Literal × Tree)}, toMembers? room ts = some vs → Value.OrderedMembers vs
  | [], h => by
    cases h
    trivial
  | (key, t) :: ts, h => by
    simp only [toMembers?, Option.bind_eq_bind, Option.bind_eq_some_iff] at h
    obtain ⟨text, -, w, hw, ws, hws, heq⟩ := h
    cases heq
    exact ⟨ordered_of_toValue? hw, orderedMembers_of_toMembers? hws⟩

end

end Tree

end ValidatorGen.Json
