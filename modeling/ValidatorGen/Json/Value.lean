import ValidatorGen.Decimal
import ValidatorGen.Text.Quoted

/-!
JSON data and its compact text. Integers are those of 64 bits, signed or unsigned; all other numbers
are doubles. Members are written in the order in which the object holds them.
-/
namespace ValidatorGen.Json

open ValidatorGen.Text

structure Integer where
  toInt : Int
  lower : -0x8000000000000000 ≤ toInt
  upper : toInt < 0x10000000000000000
  deriving DecidableEq

def Integer.ofInt? (n : Int) : Option Integer :=
  if lower : -0x8000000000000000 ≤ n then
    if upper : n < 0x10000000000000000 then some ⟨n, lower, upper⟩ else none
  else none

inductive Value
  | null
  | bool (b : Bool)
  | integer (n : Integer)
  | float (x : Float)
  | string (s : String)
  | array (items : List Value)
  | object (members : List (String × Value))

namespace Value

/-- Puts a member at its place in key order; an equal key loses its value. -/
def insertMember (key : String) (value : Value) :
    List (String × Value) → List (String × Value)
  | [] => [(key, value)]
  | (k, v) :: rest =>
    if key = k then (key, value) :: rest
    else if key < k then (key, value) :: (k, v) :: rest
    else (k, v) :: insertMember key value rest

/-- The object of the given members, in key order; of equal keys the last one counts. -/
def ofMembers (members : List (String × Value)) : Value :=
  .object (members.foldl (fun sorted member => insertMember member.1 member.2 sorted) [])

mutual

/-- The levels of arrays and objects, counted along the deepest branch. -/
def depth : Value → Nat
  | .array items => 1 + depthItems items
  | .object members => 1 + depthMembers members
  | _ => 0

def depthItems : List Value → Nat
  | [] => 0
  | item :: rest => max (depth item) (depthItems rest)

def depthMembers : List (String × Value) → Nat
  | [] => 0
  | (_, value) :: rest => max (depth value) (depthMembers rest)

end

mutual

def render : Value → String
  | .null => "null"
  | .bool true => "true"
  | .bool false => "false"
  | .integer n => toString n.toInt
  | .float x => Decimal.text x
  | .string s => Quoted.encode s
  | .array items => "[" ++ ",".intercalate (renderItems items) ++ "]"
  | .object members => "\x7b" ++ ",".intercalate (renderMembers members) ++ "\x7d"

def renderItems : List Value → List String
  | [] => []
  | item :: rest => render item :: renderItems rest

def renderMembers : List (String × Value) → List String
  | [] => []
  | (key, value) :: rest => (Quoted.encode key ++ ":" ++ render value) :: renderMembers rest

end

end Value

end ValidatorGen.Json
