import ValidatorGen.Json.Value
import ValidatorGen.Schema.TypeRef

/-!
Schemas: named type definitions in order of declaration.
-/
namespace ValidatorGen

structure Argument where
  name : String
  value : Json.Value

/-- A directive applied to a field. -/
structure Directive where
  name : String
  arguments : List Argument := []

structure Field where
  name : String
  type : TypeRef
  directives : List Directive := []

inductive Body
  | enumeration (values : List String)
  | inputObject (fields : List Field)
  | object (fields : List Field)
  | scalar

structure Definition where
  name : String
  description : Option String := none
  body : Body

structure Schema where
  definitions : List Definition := []

/-- The kind of a definition, without its content. -/
inductive Kind
  | enumeration
  | inputObject
  | object
  | scalar
  deriving DecidableEq, Repr

namespace Kind

def name : Kind → String
  | enumeration => "enum"
  | inputObject => "input_object"
  | object => "object"
  | scalar => "scalar"

def all : List Kind :=
  [enumeration, inputObject, object, scalar]

def ofName? (name : String) : Option Kind :=
  all.find? (·.name == name)

@[simp] theorem ofName?_name (k : Kind) : ofName? k.name = some k := by
  cases k <;> decide

end Kind

namespace Body

def kind : Body → Kind
  | enumeration _ => .enumeration
  | inputObject _ => .inputObject
  | object _ => .object
  | scalar => .scalar

/-- Enumerations and scalars have no fields. -/
def fields : Body → List Field
  | inputObject fields => fields
  | object fields => fields
  | enumeration _ => []
  | scalar => []

end Body

namespace Definition

def kind (d : Definition) : Kind :=
  d.body.kind

def fields (d : Definition) : List Field :=
  d.body.fields

end Definition

namespace Schema

def add (s : Schema) (d : Definition) : Schema :=
  { s with definitions := s.definitions ++ [d] }

end Schema

end ValidatorGen
