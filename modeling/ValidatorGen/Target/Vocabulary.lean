/-!
Top-level declarations of the generated module, and vocabularies of validation libraries: how each
library spells the parts of a validator expression.
-/
namespace ValidatorGen

inductive DeclarationKind
  | type
  | const
  | function
  deriving DecidableEq, Repr

/-- `head` is all that stands between the keyword and the body, so it may carry parameters or an
annotation. -/
structure Declaration where
  exported : Bool := false
  kind : DeclarationKind
  head : String
  body : String
  deriving DecidableEq, Repr

/-- Source text that ends in a line feed. -/
def Declaration.render (d : Declaration) : String :=
  (if d.exported then "export " else "") ++
    match d.kind with
    | .type => "type " ++ d.head ++ " = " ++ d.body ++ ";\n"
    | .const => "const " ++ d.head ++ " = " ++ d.body ++ ";\n"
    | .function => "function " ++ d.head ++ " \x7b\n" ++ d.body ++ "\n\x7d\n"

inductive Primitive
  | string
  | number
  | boolean
  deriving DecidableEq, Repr

def Primitive.ofTypeName? : String → Option Primitive
  | "string" => some .string
  | "number" => some .number
  | "boolean" => some .boolean
  | _ => none

/-- A constraint put on a validator; the arguments are expressions. -/
structure Call where
  method : String
  args : List String
  deriving DecidableEq, Repr

/-- The validator that built-in helpers declare for values of unknown type. -/
def anyDefinedName : String :=
  "definedNonNullAnySchema"

structure Vocabulary where
  name : String
  importLine : String
  /-- Helpers declared once before all validators. -/
  helpers : List Declaration
  primitive : Primitive → String
  /-- Accepts all values but undefined and null. -/
  anyDefined : String := anyDefinedName
  /-- A list of what the element expression accepts. -/
  listOf : String → String
  nullable : String → String
  /-- Allows null and absence. -/
  nullish : String → String
  /-- Defers an expression to its first use. -/
  deferred : String → String
  /-- Puts constraints on an expression, in order. -/
  constrain : String → List Call → String
  /-- A string of at least this many characters. -/
  minLength : Nat → Call
  /-- One of the given strings. -/
  oneOf : List String → String
  /-- A member of the native enumeration type of this name. -/
  memberOf : String → String
  /-- Opens an object validator, which a brace and a parenthesis close. -/
  objectStart : String
  /-- The optional tag that holds the name of an object's type. -/
  typenameTag : String → String
  /-- The type annotation of an object validator. -/
  objectType : String → String

end ValidatorGen
