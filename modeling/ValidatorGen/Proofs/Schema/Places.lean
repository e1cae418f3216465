import ValidatorGen.Proofs.Schema.Members
import ValidatorGen.Proofs.Schema.RoundTrip

/-! Places of a schema document at which objects stand, and the keys that are used there. Which keys
a definition uses depends on the kind that it names, wherever among its members. -/
namespace ValidatorGen

open ValidatorGen.Json Json.Tree

/-- What the objects of a document stand for. -/
inductive Place
  | document
  | definition
  | field
  | directive
  | argument

/-- The key under which a definition of this kind has its content. -/
def Kind.contentKey? : Kind → Option String
  | enumeration => some "values"
  | inputObject => some "fields"
  | object => some "fields"
  | scalar => none

/-- The kind that the members of a definition name. -/
def Definition.kind? (members : List (Literal × Tree)) : Option Kind :=
  (required? "kind" (named members)).bind Kind.ofTree?

namespace Place

/-- The keys that must be there. Those of a definition depend on its kind. -/
def requiredKeys (members : List (Literal × Tree)) : Place → List String
  | document => ["definitions"]
  | definition => ["name", "kind"] ++ ((Definition.kind? members).bind Kind.contentKey?).toList
  | field => ["name", "type"]
  | directive => ["name"]
  | argument => ["name", "value"]

def optionalKeys : Place → List String
  | document => []
  | definition => ["description"]
  | field => ["directives"]
  | directive => ["arguments"]
  | argument => []

def usedKeys (members : List (Literal × Tree)) (p : Place) : List String :=
  p.requiredKeys members ++ p.optionalKeys

/-- A list of objects, which stand for the last argument, stands under the key. -/
inductive Lists (members : List (Literal × Tree)) : Place → String → Place → Prop
  | definitions : Lists members document "definitions" definition
  | fields {kind : Kind} (hkind : Definition.kind? members = some kind)
      (hcontent : kind.contentKey? = some "fields") : Lists members definition "fields" field
  | directives : Lists members field "directives" directive
  | arguments : Lists members directive "arguments" argument

/-- The levels that an object may nest. -/
def room : Place → Nat
  | document => nestingLimit
  | definition => nestingLimit - 2
  | field => nestingLimit - 4
  | directive => nestingLimit - 6
  | argument => nestingLimit - 8

/-- Whether a value can be read under a key that is not used. A definition is read as data with all
that is in it; beside the definitions any value is passed over. -/
def Readable (p : Place) (value : Tree) : Prop :=
  p = document ∨ (value.toValue? (p.room - 1)).isSome

/-- What an object stands for at the place. -/
def Result : Place → Type
  | document => Schema
  | definition => Definition
  | field => Field
  | directive => Directive
  | argument => Argument

/-- The reader of the place, with the room that it has in a document. -/
def ofTree? : (p : Place) → Tree → Option p.Result
  | document => Schema.ofTree?
  | definition => Definition.ofTree? (nestingLimit - 2)
  | field => Field.ofTree? argumentRoom
  | directive => Directive.ofTree? argumentRoom
  | argument => Argument.ofTree? argumentRoom

theorem room_eq (p : Place) : p.room = p.room - 1 + 1 := by
  cases p <;> rfl

end Place

namespace Place.Lists

variable {members : List (Literal × Tree)} {p child : Place} {key : String}

theorem child_ne_document (h : Lists members p key child) : child ≠ document := by
  cases h <;> nofun

theorem room_eq (h : Lists members p key child) : p.room - 1 = child.room + 1 := by
  cases h <;> rfl

end Place.Lists

end ValidatorGen
