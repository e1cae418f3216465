import ValidatorGen.Json.Value

/-!
Configuration trees: what TOML and JSON have in common as sources of settings. No setting is a
number, so a number has no content here.
-/
namespace ValidatorGen

inductive Setting
  | null
  | bool (b : Bool)
  | number
  | text (s : String)
  | list (items : List Setting)
  | table (entries : List (String × Setting))

namespace Setting

mutual

def ofJson : Json.Value → Setting
  | .null => .null
  | .bool b => .bool b
  | .integer _ => .number
  | .float _ => .number
  | .string s => .text s
  | .array items => .list (ofItems items)
  | .object members => .table (ofMembers members)

def ofItems : List Json.Value → List Setting
  | [] => []
  | item :: rest => ofJson item :: ofItems rest

def ofMembers : List (String × Json.Value) → List (String × Setting)
  | [] => []
  | (key, value) :: rest => (key, ofJson value) :: ofMembers rest

end

def flag? : Setting → Option Bool
  | bool b => some b
  | _ => none

def text? : Setting → Option String
  | text s => some s
  | _ => none

def items? : Setting → Option (List Setting)
  | list items => some items
  | _ => none

def entries? : Setting → Option (List (String × Setting))
  | table entries => some entries
  | _ => none

end Setting

end ValidatorGen
