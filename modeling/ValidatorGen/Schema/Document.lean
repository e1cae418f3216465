import ValidatorGen.Json.Value
import ValidatorGen.Json.Tree
import ValidatorGen.Schema.Definition
import ValidatorGen.Schema.TypeRef.Reader

/-!
Schemas as JSON documents. A reader takes each key that it knows exactly once, or at most once
where the key is optional, and passes over all others. Instead of an object there may be an array of
what stands under the known keys; only a definition is always an object. A definition is read as a
whole, so what it holds under unknown keys must denote data too.
-/
namespace ValidatorGen

open ValidatorGen.Json

namespace Json.Tree

def string? : Tree → Option String
  | .string s => s
  | _ => none

def items? : Tree → Option (List Tree)
  | .array items => some items
  | _ => none

/-- The members of an object; every key must be well formed. -/
def members? : Tree → Option (List (String × Tree))
  | .object members => members.mapM fun (key, tree) => key.map (·, tree)
  | _ => none

/-- The members of an object, or the items of an array under the keys in their order. The array may
leave out last items, but not have more items than there are keys. -/
def entries? (keys : List String) : Tree → Option (List (String × Tree))
  | .array items => if items.length ≤ keys.length then some (keys.zip items) else none
  | tree => tree.members?

/-- The one value of a key. -/
def required? (key : String) (members : List (String × Tree)) : Option Tree :=
  match members.filter (·.1 == key) with
  | [(_, tree)] => some tree
  | _ => none

/-- The value of a key that may be left out, but not repeated. -/
def optional? (key : String) (members : List (String × Tree)) : Option (Option Tree) :=
  match members.filter (·.1 == key) with
  | [] => some none
  | [(_, tree)] => some (some tree)
  | _ => none

end Json.Tree

open Json.Tree

/-- `room` is the number of levels that an argument's value may nest. -/
def Argument.ofTree? (room : Nat) (tree : Tree) : Option Argument := do
  let members ← tree.entries? ["name", "value"]
  let name ← (← required? "name" members).string?
  let value ← (← required? "value" members).toValue? room
  some { name, value }

def Directive.ofTree? (room : Nat) (tree : Tree) : Option Directive := do
  let members ← tree.entries? ["name", "arguments"]
  let name ← (← required? "name" members).string?
  match ← optional? "arguments" members with
  | none => some { name }
  | some list => some { name, arguments := ← (← list.items?).mapM (Argument.ofTree? room) }

def TypeRef.ofTree? (tree : Tree) : Option TypeRef := do
  (TypeRef.read (← tree.string?)).toOption

def Field.ofTree? (room : Nat) (tree : Tree) : Option Field := do
  let members ← tree.entries? ["name", "type", "directives"]
  let name ← (← required? "name" members).string?
  let type ← TypeRef.ofTree? (← required? "type" members)
  match ← optional? "directives" members with
  | none => some { name, type }
  | some list =>
    some { name, type, directives := ← (← list.items?).mapM (Directive.ofTree? room) }

/-- A kind by its name, or by its place among all kinds. -/
def Kind.ofTree? : Tree → Option Kind
  | .string name => name.bind ofName?
  | .number n => do
    let place ← n.integer?
    if place.toInt < 0 then none else all[place.toInt.toNat]?
  | _ => none

/-- A null description counts as none. -/
def description? : Option Tree → Option (Option String)
  | none => some none
  | some .null => some none
  | some tree => tree.string?.map some

def fields? (room : Nat) (members : List (String × Tree)) : Option (List Field) := do
  (← (← required? "fields" members).items?).mapM (Field.ofTree? room)

def Body.ofMembers? (room : Nat) (members : List (String × Tree)) : Kind → Option Body
  | .enumeration => do
    some (.enumeration (← (← (← required? "values" members).items?).mapM Tree.string?))
  | .inputObject => (fields? room members).map .inputObject
  | .object => (fields? room members).map .object
  | .scalar => some .scalar

/-- `room` is the number of levels that the definition may nest; an argument's value lies seven
levels below it. -/
def Definition.ofTree? (room : Nat) (tree : Tree) : Option Definition := do
  let _ ← tree.toValue? room
  let members ← tree.members?
  let name ← (← required? "name" members).string?
  let description ← description? (← optional? "description" members)
  let kind ← Kind.ofTree? (← required? "kind" members)
  let body ← Body.ofMembers? (room - 7) members kind
  some { name, description, body }

def Schema.ofTree? (tree : Tree) : Option Schema := do
  let list ← required? "definitions" (← tree.entries? ["definitions"])
  let definitions ← (← list.items?).mapM (Definition.ofTree? (nestingLimit - 2))
  some { definitions }

/-- The schema of a document. -/
def Schema.read? (text : String) : Option Schema := do
  Schema.ofTree? (← Tree.read? text)

/-- A list member that is left out when the list is empty. -/
def listMember (key : String) (items : List Value) : List (String × Value) :=
  if items.isEmpty then [] else [(key, .array items)]

def Argument.toJson (a : Argument) : Value :=
  .object [("name", .string a.name), ("value", a.value)]

def Directive.toJson (d : Directive) : Value :=
  .object (("name", .string d.name) :: listMember "arguments" (d.arguments.map Argument.toJson))

def Field.toJson (f : Field) : Value :=
  .object (("name", .string f.name) :: ("type", .string f.type.text) ::
    listMember "directives" (f.directives.map Directive.toJson))

def Body.members : Body → List (String × Value)
  | .enumeration values => [("values", .array (values.map .string))]
  | .inputObject fields => [("fields", .array (fields.map Field.toJson))]
  | .object fields => [("fields", .array (fields.map Field.toJson))]
  | .scalar => []

def Definition.toJson (d : Definition) : Value :=
  let description :=
    match d.description with
    | none => []
    | some text => [("description", .string text)]
  .object (("name", .string d.name) :: description ++
    ("kind", .string d.kind.name) :: d.body.members)

def Schema.toJson (s : Schema) : Value :=
  .object [("definitions", .array (s.definitions.map Definition.toJson))]

/-- The document of a schema. -/
def Schema.write (s : Schema) : String :=
  s.toJson.render

end ValidatorGen
