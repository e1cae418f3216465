import Std.Data.TreeMap
import ValidatorGen.Schema.Definition

/-!
Definitions by name. Types may refer to each other in cycles, so a reference is looked up when it
is met. An index exists only for schemas without a repeated name.
-/
namespace ValidatorGen

structure DuplicateDefinition where
  name : String
  deriving DecidableEq, Repr

def DuplicateDefinition.message (e : DuplicateDefinition) : String :=
  "type \x60" ++ e.name ++ "\x60 is defined more than once"

structure Index where
  schema : Schema
  byName : Std.TreeMap String Definition

namespace Index

/-- Adds definitions one by one; the first name met again is the error. -/
def insertAll (byName : Std.TreeMap String Definition) :
    List Definition → Except DuplicateDefinition (Std.TreeMap String Definition)
  | [] => .ok byName
  | d :: rest =>
    if byName.contains d.name then .error ⟨d.name⟩
    else insertAll (byName.insert d.name d) rest

def ofSchema (schema : Schema) : Except DuplicateDefinition Index :=
  (insertAll ∅ schema.definitions).map fun byName => ⟨schema, byName⟩

def get? (index : Index) (name : String) : Option Definition :=
  index.byName[name]?

def kindOf? (index : Index) (name : String) : Option Kind :=
  (index.get? name).map Definition.kind

def isInputObject (index : Index) (name : String) : Bool :=
  index.kindOf? name == some .inputObject

end Index

end ValidatorGen
