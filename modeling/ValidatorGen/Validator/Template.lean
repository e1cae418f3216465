import ValidatorGen.Json.Value

/-!
Argument templates. A placeholder is a dollar sign with a number, and denotes the directive value
of that position, counted from one. A template that is one placeholder gives the value as a
literal; any other template gives the text with the values put in, as a string literal.
-/
namespace ValidatorGen.Template

open ValidatorGen.Json (Value)

def isFlag (c : Char) : Bool :=
  "dgimsuy".toList.contains c

/-- A pattern between slashes, up to the last slash, then flags. The pattern is not empty, since two
slashes open a comment. -/
def isRegex (cs : List Char) : Bool :=
  match cs with
  | '/' :: body =>
    let flags := body.reverse.takeWhile (· != '/')
    match body.reverse.dropWhile (· != '/') with
    | '/' :: pattern => !pattern.isEmpty && !cs.contains '\n' && flags.all isFlag
    | _ => false
  | _ => false

/-- Regular expressions are written as they are, other texts in quotes. -/
def stringLiteral (s : String) : String :=
  if isRegex s.toList then s else Text.Quoted.encode s

def literal : Value → String
  | .string s => stringLiteral s
  | value => value.render

def rawText : Value → String
  | .string s => s
  | value => value.render

/-- The place, counted from zero, of the value that a placeholder's digits denote. Zero denotes
nothing, nor do numbers of more than 64 bits. -/
def place? (digits : List Char) : Option Nat :=
  match Nat.ofDigitChars 10 digits 0 with
  | 0 => none
  | n + 1 => if n + 1 < 1 <<< 64 then some n else none

def denoted? (values : List Value) (digits : List Char) : Option Value :=
  (place? digits).bind (values[·]?)

/-- The place that a template denotes which is one placeholder. -/
def exactPlace? : List Char → Option Nat
  | '$' :: digits => if digits ≠ [] ∧ digits.all Char.isDigit then place? digits else none
  | _ => none

/-- The text of a template with the raw texts of the values put in. -/
def expand (values : List Value) : List Char → List Char
  | [] => []
  | c :: rest =>
    if c = '$' ∧ rest.takeWhile Char.isDigit ≠ [] then
      (((denoted? values (rest.takeWhile Char.isDigit)).map rawText).getD "").toList ++
        expand values (rest.dropWhile Char.isDigit)
    else c :: expand values rest
termination_by cs => cs.length
decreasing_by
  · have := (List.dropWhile_suffix (l := rest) Char.isDigit).length_le
    simp only [List.length_cons]
    omega
  · simp

/-- The argument that a template gives; none when it has no content. A placeholder that denotes no
place is put in like any other. -/
def apply (values : List Value) (template : String) : Option String :=
  match exactPlace? template.toList with
  | some place => values[place]?.map literal
  | none =>
    match expand values template.toList with
    | [] => none
    | text => some (stringLiteral (String.ofList text))

end ValidatorGen.Template
