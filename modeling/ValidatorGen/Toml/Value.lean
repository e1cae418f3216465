import ValidatorGen.Toml.Moment
import ValidatorGen.Toml.Number
import ValidatorGen.Toml.Table
import ValidatorGen.Toml.Text

/-!
Keys and values. An array may run over several lines, an inline table stands on one; both nest up
to a limit.
-/
namespace ValidatorGen.Toml

open Scan

/-- The steps of a dotted key, and the nesting of arrays and inline tables, stay below this. -/
def nestingLimit : Nat := 80

def isBareKeyChar (c : Char) : Bool :=
  c.isAlphanum || c == '_' || c == '-'

def bareKey : Scan String := do
  let cs ← takeWhile isBareKeyChar
  if cs = [] then failure else pure (String.ofList cs)

def simpleKey : Scan String :=
  (String.ofList <$> Text.line?) <|> bareKey

/-- The further steps of a dotted key; `fuel` bounds their number. -/
def keySteps : (fuel : Nat) → Scan (List String)
  | 0 => failure
  | fuel + 1 => do
    blanks
    let step ← simpleKey
    blanks
    if ← accept '.' then
      let more ← keySteps fuel
      pure (step :: more)
    else pure [step]

/-- A key as the path to its table and its last step. -/
def dottedKey : Scan (List String × String) := do
  let steps ← keySteps (nestingLimit - 1)
  match steps.getLast? with
  | some last => pure (steps.dropLast, last)
  | none => failure

def assignment (value : Scan Setting) : Scan Assignment := do
  let (path, key) ← dottedKey
  expect '='
  blanks
  let found ← value
  blanks
  pure { path, key, value := found }

/-- The items up to the closing bracket; `fuel` bounds their number. -/
def arrayItems (value : Scan Setting) : (fuel : Nat) → Scan (List Setting)
  | 0 => failure
  | fuel + 1 => do
    gap
    if ← accept ']' then pure []
    else
      let item ← value
      gap
      if ← accept ',' then
        let items ← arrayItems value fuel
        pure (item :: items)
      else
        expect ']'
        pure [item]

def array (value : Scan Setting) : Scan Setting := do
  expect '['
  let items ← arrayItems value ((← rest).length + 1)
  pure (.list items)

/-- The assignments up to the closing brace; `fuel` bounds their number. -/
def inlineAssignments (value : Scan Setting) : (fuel : Nat) → Scan (List Assignment)
  | 0 => failure
  | fuel + 1 => do
    let a ← assignment value
    if ← accept ',' then
      let more ← inlineAssignments value fuel
      pure (a :: more)
    else
      expect '\x7d'
      pure [a]

def inlineTable (value : Scan Setting) : Scan Setting := do
  expect '\x7b'
  blanks
  if ← accept '\x7d' then pure (.table [])
  else
    let assignments ← inlineAssignments value ((← rest).length + 1)
    match Entries.assignAll assignments [] with
    | some entries => pure (.table (settingEntries entries))
    | none => failure

def boolean : Scan Bool :=
  (do expectAll "true"; pure true) <|> (do expectAll "false"; pure false)

def scalar : Scan Setting :=
  ((fun cs => .text (String.ofList cs)) <$> Text.string?) <|>
    (.bool <$> boolean) <|>
    (Moment.toSetting <$> Moment.scan) <|>
    (do Number.scan; pure .number)

/-- A value nested at most `room` levels deep. -/
def value : (room : Nat) → Scan Setting
  | 0 => scalar
  | room + 1 => array (value room) <|> inlineTable (value room) <|> scalar

end ValidatorGen.Toml
