import ValidatorGen.Json.Value
import ValidatorGen.Proofs.Json.Value
import ValidatorGen.Proofs.Text.Quoted

/-! Compact JSON text can be read back: the text of a value without doubles is read as the tree of
the value. -/
namespace ValidatorGen.Json

namespace Value

theorem isSpace_eq_false_of_isDigit {c : Char} (h : c.isDigit = true) : Tree.isSpace c = false := by
  rw [← Bool.not_eq_true]
  intro hspace
  simp only [Tree.isSpace, Bool.or_eq_true, beq_iff_eq] at hspace
  rcases hspace with ((rfl | rfl) | rfl) | rfl <;> cases h

theorem toList_encode (s : String) :
    (Text.Quoted.encode s).toList = '"' :: (s.toList.flatMap Text.Quoted.escape ++ ['"']) := by
  simp [Text.Quoted.encode, Text.Quoted.encodeChars]

/-- The first character of a value's text is neither a space nor a closing bracket. -/
theorem exists_render_eq_cons {v : Value} (hv : v.Exact) :
    ∃ c cs, v.render.toList = c :: cs ∧ Tree.isSpace c = false ∧ c ≠ ']' := by
  cases v with
  | null => exact ⟨'n', _, rfl, rfl, by decide⟩
  | bool b =>
    cases b with
    | false => exact ⟨'f', _, rfl, rfl, by decide⟩
    | true => exact ⟨'t', _, rfl, rfl, by decide⟩
  | integer n =>
    obtain ⟨c, cs, hcs, hc⟩ := Numeral.exists_toString_eq_cons n
    refine ⟨c, cs, hcs, ?_, ?_⟩
    · rcases hc with hdigit | rfl
      · exact isSpace_eq_false_of_isDigit hdigit
      · rfl
    · rintro rfl
      rcases hc with hc | hc <;> cases hc
  | float x => exact hv.elim
  | string s =>
    rw [render, toList_encode]
    exact ⟨'"', _, rfl, rfl, by decide⟩
  | array items =>
    rw [render, String.toList_append, String.toList_append]
    exact ⟨'[', _, rfl, rfl, by decide⟩
  | object members =>
    rw [render, String.toList_append, String.toList_append]
    exact ⟨'\x7b', _, rfl, rfl, by decide⟩

end Value

namespace Tree

theorem skipSpaces_cons {c : Char} (h : isSpace c = false) (cs : List Char) :
    skipSpaces (c :: cs) = c :: cs :=
  List.dropWhile_cons_of_neg (by simp [h])

theorem scanString_toList (s : String) (rest : List Char) :
    scanString (s.toList.flatMap Text.Quoted.escape ++ '"' :: rest) = some (some s, rest) := by
  simp [scanString, Text.Quoted.scan_flatMap_escape, Text.Quoted.assemble_map_piece]

theorem scanValue_string (fuel : Nat) (cs : List Char) :
    scanValue (fuel + 1) ('"' :: cs) =
      (scanString cs).map fun (s, after) => (.string s, after) := rfl

theorem scanValue_array {c : Char} (hspace : isSpace c = false) (hclose : c ≠ ']') (fuel : Nat)
    (cs : List Char) :
    scanValue (fuel + 1) ('[' :: c :: cs) =
      (scanItems fuel (c :: cs)).map fun (items, after) => (.array items, after) := by
  rw [scanValue, skipSpaces_cons rfl]
  simp only [skipSpaces_cons hspace]
  split
  · next h => exact (hclose (List.cons.inj h).1).elim
  · rfl

theorem scanValue_object (fuel : Nat) (cs : List Char) :
    scanValue (fuel + 1) ('\x7b' :: '"' :: cs) =
      (scanMembers fuel ('"' :: cs)).map fun (members, after) => (.object members, after) := rfl

theorem scanValue_number {c : Char} (h : c.isDigit = true ∨ c = '-') (fuel : Nat) (cs : List Char) :
    scanValue (fuel + 1) (c :: cs) =
      (Numeral.scan (c :: cs)).map fun (n, after) => (.number n, after) := by
  have hspace : isSpace c = false := by
    rcases h with h | rfl
    · exact Value.isSpace_eq_false_of_isDigit h
    · rfl
  rw [scanValue, skipSpaces_cons hspace]
  split <;> simp_all

/-! One item or member, then the closing bracket or, after a comma, the others. -/

theorem scanItems_last {fuel : Nat} {cs rest : List Char} {item : Tree}
    (h : scanValue fuel cs = some (item, ']' :: rest)) :
    scanItems (fuel + 1) cs = some ([item], rest) := by
  simp only [scanItems, h, Option.bind_eq_bind, Option.bind_some]
  rfl

theorem scanItems_more {fuel : Nat} {cs more rest : List Char} {item : Tree} {items : List Tree}
    (h : scanValue fuel cs = some (item, ',' :: more))
    (hmore : scanItems fuel more = some (items, rest)) :
    scanItems (fuel + 1) cs = some (item :: items, rest) := by
  have hcomma : skipSpaces (',' :: more) = ',' :: more := rfl
  simp only [scanItems, h, hcomma, hmore, Option.bind_eq_bind, Option.bind_some]

theorem scanMembers_last {fuel : Nat} {key : String} {cs rest : List Char} {value : Tree}
    (h : scanValue fuel cs = some (value, '\x7d' :: rest)) :
    scanMembers (fuel + 1) ('"' :: (key.toList.flatMap Text.Quoted.escape ++ '"' :: ':' :: cs)) =
      some ([(some key, value)], rest) := by
  have hquote (cs : List Char) : skipSpaces ('"' :: cs) = '"' :: cs := rfl
  have hcolon : skipSpaces (':' :: cs) = ':' :: cs := rfl
  simp only [scanMembers, hquote, scanString_toList, hcolon, h, Option.bind_eq_bind,
    Option.bind_some]
  rfl

theorem scanMembers_more {fuel : Nat} {key : String} {cs more rest : List Char} {value : Tree}
    {members : List (Literal × Tree)} (h : scanValue fuel cs = some (value, ',' :: more))
    (hmore : scanMembers fuel more = some (members, rest)) :
    scanMembers (fuel + 1) ('"' :: (key.toList.flatMap Text.Quoted.escape ++ '"' :: ':' :: cs)) =
      some ((some key, value) :: members, rest) := by
  have hquote (cs : List Char) : skipSpaces ('"' :: cs) = '"' :: cs := rfl
  have hcolon : skipSpaces (':' :: cs) = ':' :: cs := rfl
  have hcomma : skipSpaces (',' :: more) = ',' :: more := rfl
  simp only [scanMembers, hquote, scanString_toList, hcolon, h, hcomma, hmore, Option.bind_eq_bind,
    Option.bind_some]

end Tree

namespace Value
open Json.Tree

def itemsText (items : List Value) : List Char :=
  (",".intercalate (renderItems items)).toList

def membersText (members : List (String × Value)) : List Char :=
  (",".intercalate (renderMembers members)).toList

theorem toList_render_array (items : List Value) :
    (Value.array items).render.toList = '[' :: (itemsText items ++ [']']) := by
  simp [render, itemsText]

theorem toList_render_object (members : List (String × Value)) :
    (Value.object members).render.toList = '\x7b' :: (membersText members ++ ['\x7d']) := by
  simp [render, membersText]

theorem itemsText_singleton (item : Value) : itemsText [item] = item.render.toList := by
  simp [itemsText, renderItems]

theorem itemsText_cons_cons (item next : Value) (more : List Value) :
    itemsText (item :: next :: more) = item.render.toList ++ ',' :: itemsText (next :: more) := by
  simp [itemsText, renderItems]

theorem exists_itemsText_eq_append (item : Value) (rest : List Value) :
    ∃ tail, itemsText (item :: rest) = item.render.toList ++ tail := by
  cases rest with
  | nil => exact ⟨[], by rw [itemsText_singleton, List.append_nil]⟩
  | cons next more => exact ⟨_, itemsText_cons_cons item next more⟩

theorem membersText_singleton (member : String × Value) :
    membersText [member] =
      '"' :: (member.1.toList.flatMap Text.Quoted.escape ++
        '"' :: ':' :: member.2.render.toList) := by
  simp [membersText, renderMembers, toList_encode]

theorem membersText_cons_cons (member next : String × Value) (more : List (String × Value)) :
    membersText (member :: next :: more) =
      membersText [member] ++ ',' :: membersText (next :: more) := by
  simp [membersText, renderMembers, toList_encode]

theorem exists_membersText_eq_cons (member : String × Value) (rest : List (String × Value)) :
    ∃ tail, membersText (member :: rest) = '"' :: tail := by
  cases rest with
  | nil => exact ⟨_, membersText_singleton member⟩
  | cons next more =>
    rw [membersText_cons_cons, membersText_singleton]
    exact ⟨_, rfl⟩

/-- The text of a value is read as its tree, whatever delimits it. -/
def Readable (v : Value) : Prop :=
  ∀ (fuel : Nat) (rest : List Char), v.render.toList.length ≤ fuel → Delimits rest →
    scanValue fuel (v.render.toList ++ rest) = some (v.toTree, rest)

theorem scanItems_itemsText {items : List Value} (hne : items ≠ [])
    (h : ∀ item ∈ items, item.Readable) {fuel : Nat} (hfuel : (itemsText items).length < fuel)
    (rest : List Char) :
    scanItems fuel (itemsText items ++ ']' :: rest) = some (items.map toTree, rest) := by
  induction items generalizing fuel with
  | nil => exact (hne rfl).elim
  | cons item items ih =>
    obtain ⟨fuel, rfl⟩ := Nat.exists_eq_add_one_of_ne_zero (Nat.ne_zero_of_lt hfuel)
    cases items with
    | nil =>
      rw [itemsText_singleton] at hfuel ⊢
      exact scanItems_last
        (h item (by simp) fuel _ (by omega) (delimits_cons (Or.inr (Or.inl rfl)) rest))
    | cons next more =>
      rw [itemsText_cons_cons] at hfuel ⊢
      simp only [List.length_append, List.length_cons] at hfuel
      rw [List.append_assoc, List.cons_append]
      have hitem := h item (by simp) fuel _ (by omega)
        (delimits_cons (Or.inl rfl) (itemsText (next :: more) ++ ']' :: rest))
      have hitems : scanItems fuel (itemsText (next :: more) ++ ']' :: rest) =
          some ((next :: more).map toTree, rest) :=
        ih (by simp) (fun item hmem => h item (by simp [hmem])) (by omega)
      exact scanItems_more hitem hitems

theorem scanMembers_membersText {members : List (String × Value)} (hne : members ≠ [])
    (h : ∀ member ∈ members, member.2.Readable) {fuel : Nat}
    (hfuel : (membersText members).length < fuel) (rest : List Char) :
    scanMembers fuel (membersText members ++ '\x7d' :: rest) =
      some (members.map fun member => (some member.1, member.2.toTree), rest) := by
  induction members generalizing fuel with
  | nil => exact (hne rfl).elim
  | cons member members ih =>
    obtain ⟨fuel, rfl⟩ := Nat.exists_eq_add_one_of_ne_zero (Nat.ne_zero_of_lt hfuel)
    cases members with
    | nil =>
      rw [membersText_singleton] at hfuel ⊢
      simp only [List.length_append, List.length_cons] at hfuel
      have hvalue := h member (by simp) fuel _ (by omega)
        (delimits_cons (Or.inr (Or.inr rfl)) rest)
      simpa using scanMembers_last hvalue
    | cons next more =>
      rw [membersText_cons_cons, membersText_singleton] at hfuel ⊢
      simp only [List.length_append, List.length_cons] at hfuel
      have hvalue := h member (by simp) fuel _ (by omega)
        (delimits_cons (Or.inl rfl) (membersText (next :: more) ++ '\x7d' :: rest))
      have hmembers : scanMembers fuel (membersText (next :: more) ++ '\x7d' :: rest) =
          some ((next :: more).map fun member => (some member.1, member.2.toTree), rest) :=
        ih (by simp) (fun member hmem => h member (by simp [hmem])) (by omega)
      simpa using scanMembers_more hvalue hmembers

theorem readable_of_succ {v : Value} (hv : v.Exact)
    (h : ∀ (fuel : Nat) (rest : List Char), v.render.toList.length ≤ fuel + 1 → Delimits rest →
      scanValue (fuel + 1) (v.render.toList ++ rest) = some (v.toTree, rest)) : v.Readable := by
  intro fuel rest hfuel hrest
  obtain ⟨c, cs, hcs, -⟩ := exists_render_eq_cons hv
  cases fuel with
  | zero => simp [hcs] at hfuel
  | succ fuel => exact h fuel rest hfuel hrest

theorem readable_array {items : List Value} (hexact : (Value.array items).Exact)
    (h : ∀ item ∈ items, item.Readable) : (Value.array items).Readable := by
  refine readable_of_succ hexact fun fuel rest hfuel _ => ?_
  rw [toList_render_array] at hfuel ⊢
  simp only [List.length_cons, List.length_append, List.length_nil] at hfuel
  rw [toTree, toTrees_eq_map, List.cons_append, List.append_assoc, List.singleton_append]
  cases items with
  | nil => rfl
  | cons item items =>
    have hitems : scanItems fuel (itemsText (item :: items) ++ ']' :: rest) =
        some ((item :: items).map toTree, rest) :=
      scanItems_itemsText (by simp) h (by omega) rest
    obtain ⟨tail, htail⟩ := exists_itemsText_eq_append item items
    obtain ⟨c, cs, hcs, hspace, hclose⟩ := exists_render_eq_cons hexact.1
    rw [htail, hcs] at hitems ⊢
    rw [List.cons_append, List.cons_append] at hitems ⊢
    rw [scanValue_array hspace hclose, hitems]
    rfl

theorem readable_object {members : List (String × Value)} (hexact : (Value.object members).Exact)
    (h : ∀ member ∈ members, member.2.Readable) : (Value.object members).Readable := by
  refine readable_of_succ hexact fun fuel rest hfuel _ => ?_
  rw [toList_render_object] at hfuel ⊢
  simp only [List.length_cons, List.length_append, List.length_nil] at hfuel
  rw [toTree, toMemberTrees_eq_map, List.cons_append, List.append_assoc, List.singleton_append]
  cases members with
  | nil => rfl
  | cons member members =>
    have hmembers : scanMembers fuel (membersText (member :: members) ++ '\x7d' :: rest) =
        some ((member :: members).map fun member => (some member.1, member.2.toTree), rest) :=
      scanMembers_membersText (by simp) h (by omega) rest
    obtain ⟨tail, htail⟩ := exists_membersText_eq_cons member members
    rw [htail, List.cons_append] at hmembers ⊢
    rw [scanValue_object, hmembers]
    rfl

theorem readable_of_exact {v : Value} (hv : v.Exact) : v.Readable := by
  induction v using Value.induct with
  | null => exact readable_of_succ hv fun _ _ _ _ => rfl
  | bool b =>
    refine readable_of_succ hv fun _ _ _ _ => ?_
    cases b <;> rfl
  | integer n =>
    refine readable_of_succ hv fun fuel rest _ hrest => ?_
    obtain ⟨c, cs, hcs, hc⟩ := Numeral.exists_toString_eq_cons n
    have hscan := Numeral.scan_toString_append n hrest
    rw [hcs, List.cons_append] at hscan
    rw [render, hcs, List.cons_append, scanValue_number hc, hscan]
    rfl
  | float x => exact hv.elim
  | string s =>
    refine readable_of_succ hv fun fuel rest _ _ => ?_
    rw [render, toList_encode, List.cons_append, List.append_assoc, scanValue_string]
    simp [scanString_toList, toTree]
  | array items ih =>
    exact readable_array hv fun item hitem => ih item hitem (exactItems_iff.mp hv item hitem)
  | object members ih =>
    exact readable_object hv fun member hmember =>
      ih member hmember (exactMembers_iff.mp hv member hmember)

end Value

/-- The text of a value without doubles is read as its tree. -/
theorem Tree.read?_render {v : Value} (hv : v.Exact) : Tree.read? v.render = some v.toTree := by
  have hscan := Value.readable_of_exact hv (v.render.toList.length + 1) [] (by omega) delimits_nil
  rw [List.append_nil] at hscan
  rw [read?, readChars?, hscan]
  rfl

namespace Value

/-- Values without doubles are told apart by their texts. -/
theorem render_inj {v w : Value} (hv : v.Exact) (hw : w.Exact) (h : v.render = w.render) :
    v = w := by
  have htree := Tree.read?_render hw
  rw [← h, Tree.read?_render hv] at htree
  exact toTree_inj hv hw (Option.some.inj htree)

/-- The text is JSON for the value: it is read as the value exactly if the levels of the value are
within the limit of nesting, whatever that is. -/
def WrittenAs (v : Value) (text : String) : Prop :=
  ∀ room, (Tree.read? text).bind (Tree.toValue? room) = some v ↔ v.depth ≤ room

theorem writtenAs_render {v : Value} (hv : v.Exact) (ho : v.Ordered) : v.WrittenAs v.render := by
  intro room
  rw [Tree.read?_render hv]
  exact Tree.toValue?_toTree_eq_some_iff hv ho

end Value

end ValidatorGen.Json
