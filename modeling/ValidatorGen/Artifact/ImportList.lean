import Std.Data.TreeSet

/-!
Names in the order in which they were first inserted.
-/
namespace ValidatorGen

structure ImportList where
  names : Array String := #[]
  /-- The same names, for membership. -/
  seen : Std.TreeSet String := ∅

namespace ImportList

def empty : ImportList := {}

/-- Records a name unless it is there already. -/
def insert (l : ImportList) (name : String) : ImportList :=
  if l.seen.contains name then l
  else { names := l.names.push name, seen := l.seen.insert name }

def insertAll (l : ImportList) (names : List String) : ImportList :=
  names.foldl insert l

def ofList (names : List String) : ImportList :=
  empty.insertAll names

def toList (l : ImportList) : List String :=
  l.names.toList

/-- Inserts the names of another list in their order. -/
def merge (l other : ImportList) : ImportList :=
  l.insertAll other.toList

def size (l : ImportList) : Nat :=
  l.names.size

def isEmpty (l : ImportList) : Bool :=
  l.names.isEmpty

@[simp] theorem toList_empty : empty.toList = [] := rfl

theorem toList_insert (l : ImportList) (name : String) :
    (l.insert name).toList =
      if l.seen.contains name then l.toList else l.toList ++ [name] := by
  unfold insert
  split <;> simp [toList]

end ImportList

end ValidatorGen
