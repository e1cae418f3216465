import Mathlib.Data.Finset.Card
import ValidatorGen.Proofs.Artifact.Imports

/-! Import lists that grow by names and by other lists that were put together in the same way. Such a
list is the one that its names give when they are inserted one after the other, so it holds each of
them once, where it first came, and merging behaves like putting sequences of names together. -/
namespace ValidatorGen.ImportList

/-- How a list came about, starting from nothing. -/
inductive History
  | start
  | insert (before : History) (name : String)
  | merge (before other : History)

namespace History

def list : History → ImportList
  | start => empty
  | insert before name => before.list.insert name
  | merge before other => before.list.merge other.list

/-- All names in the order of their insertion, those of a merged list where it was merged. -/
def inserted : History → List String
  | start => []
  | insert before name => before.inserted ++ [name]
  | merge before other => before.inserted ++ other.inserted

end History

/-! Lists of given names. -/

theorem insertAll_concat (l : ImportList) (names : List String) (name : String) :
    l.insertAll (names ++ [name]) = (l.insertAll names).insert name := by
  simp [insertAll]

theorem ofList_concat (names : List String) (name : String) :
    ofList (names ++ [name]) = (ofList names).insert name :=
  insertAll_concat empty names name

theorem contains_seen_ofList {names : List String} {name : String} :
    (ofList names).seen.contains name = true ↔ name ∈ names := by
  rw [Std.TreeSet.contains_iff_mem, (records_ofList names).seen, (records_ofList names).mem]

theorem insert_ofList_of_mem {names : List String} {name : String} (h : name ∈ names) :
    (ofList names).insert name = ofList names :=
  if_pos (contains_seen_ofList.mpr h)

/-- The names that a list has recorded stand for all that were inserted into it. -/
theorem merge_ofList (names others : List String) :
    (ofList names).merge (ofList others) = ofList (names ++ others) := by
  induction others using List.reverseRecOn with
  | nil =>
    rw [List.append_nil]
    rfl
  | append_singleton others name ih =>
    rw [ofList_concat, ← List.append_assoc, ofList_concat]
    by_cases h : name ∈ others
    · rw [insert_ofList_of_mem h, ih, insert_ofList_of_mem (List.mem_append_right names h)]
    · have hnew : ¬ (ofList others).seen.contains name = true := mt contains_seen_ofList.mp h
      rw [merge, toList_insert, if_neg hnew, insertAll_concat, ← merge, ih]

theorem toList_ofList (names : List String) : (ofList names).toList = names.eraseDups := by
  induction names using List.reverseRecOn with
  | nil => rfl
  | append_singleton names name ih =>
    rw [ofList_concat, toList_insert, ih, List.eraseDups_append]
    by_cases h : name ∈ names
    · simp [contains_seen_ofList.mpr h, List.removeAll, h]
    · simp [mt contains_seen_ofList.mp h, List.removeAll, h, List.eraseDups_cons]

theorem Records.size {l : ImportList} {inserted : List String} (h : l.Records inserted) :
    l.size = inserted.toFinset.card := by
  have hnames : l.toList.toFinset = inserted.toFinset := by
    ext name
    rw [List.mem_toFinset, List.mem_toFinset, h.mem]
  rw [← hnames, List.toFinset_card_of_nodup h.nodup]
  exact Array.length_toList.symm

/-- A history may be told as a sequence of insertions, whatever was merged on the way. -/
theorem History.list_eq_ofList (h : History) : h.list = ofList h.inserted := by
  induction h with
  | start => rfl
  | insert before name ih => rw [list, inserted, ih, ofList_concat]
  | merge before other ihbefore ihother => rw [list, inserted, ihbefore, ihother, merge_ofList]

/-- Whatever the history, the list holds the first occurrences of the inserted names, in their order,
and the names for membership are the same. Merging is associative, with the empty list as identity. -/
theorem History.list_laws (h : History) :
    h.list.toList.Nodup ∧
    (∀ name, name ∈ h.list.seen ↔ name ∈ h.list.toList) ∧
    h.list.toList = h.inserted.eraseDups ∧
    h.list.size = h.inserted.toFinset.card ∧
    (h.list.isEmpty = true ↔ h.inserted = []) ∧
    (∀ others more : History, (h.list.merge others.list).merge more.list =
      h.list.merge (others.list.merge more.list)) ∧
    empty.merge h.list = h.list ∧ h.list.merge empty = h.list := by
  have hrecords : h.list.Records h.inserted := by
    rw [h.list_eq_ofList]
    exact records_ofList h.inserted
  refine ⟨hrecords.nodup, hrecords.seen, ?_, hrecords.size, hrecords.isEmpty, ?_, ?_, rfl⟩
  · rw [h.list_eq_ofList, toList_ofList]
  · intro others more
    simp only [list_eq_ofList, merge_ofList, List.append_assoc]
  · rw [h.list_eq_ofList]
    exact merge_ofList [] h.inserted

/-- A merged list brings its own repetitions and names that are there already. -/
example :
    let users : History := ((History.start.insert "User").insert "Role").insert "User"
    let pages : History := (History.start.insert "Page").merge (users.insert "Page")
    (users.merge pages).list.toList = ["User", "Role", "Page"] := by
  decide +kernel

end ValidatorGen.ImportList
