import ValidatorGen.Json.Numeral
import ValidatorGen.Text.Quoted

/-!
JSON text as a tree of literals. The tree keeps what a value does not: numbers beyond the doubles,
literals with an unpaired surrogate, repeated members and their order. `Tree.read?` accepts
exactly one value with blanks around it; `Tree.toValue?` gives the data of a tree.
-/
namespace ValidatorGen.Json

/-- The text of a string literal, if its surrogates are paired. -/
abbrev Literal := Option String

inductive Tree
  | null
  | bool (b : Bool)
  | number (n : Numeral)
  | string (s : Literal)
  | array (items : List Tree)
  | object (members : List (Literal × Tree))

namespace Tree

def isSpace (c : Char) : Bool :=
  c == ' ' || c == '\t' || c == '\n' || c == '\r'

def skipSpaces (cs : List Char) : List Char :=
  cs.dropWhile isSpace

/-- The literal whose opening quote has been read. -/
def scanString (cs : List Char) : Option (Literal × List Char) :=
  (Text.Quoted.scan cs).map fun (pieces, rest) =>
    ((Text.Quoted.assemble pieces).map String.ofList, rest)

mutual

/-- A value at the front; `fuel` bounds the number of values, items and members begun. -/
def scanValue : Nat → List Char → Option (Tree × List Char)
  | 0, _ => none
  | fuel + 1, cs =>
    match skipSpaces cs with
    | 'n' :: 'u' :: 'l' :: 'l' :: rest => some (.null, rest)
    | 't' :: 'r' :: 'u' :: 'e' :: rest => some (.bool true, rest)
    | 'f' :: 'a' :: 'l' :: 's' :: 'e' :: rest => some (.bool false, rest)
    | '"' :: rest => (scanString rest).map fun (s, after) => (.string s, after)
    | '[' :: rest =>
      match skipSpaces rest with
      | ']' :: after => some (.array [], after)
      | _ => (scanItems fuel rest).map fun (items, after) => (.array items, after)
    | '\x7b' :: rest =>
      match skipSpaces rest with
      | '\x7d' :: after => some (.object [], after)
      | _ => (scanMembers fuel rest).map fun (members, after) => (.object members, after)
    | start => (Numeral.scan start).map fun (n, after) => (.number n, after)

/-- The items from the first one to the closing bracket. -/
def scanItems : Nat → List Char → Option (List Tree × List Char)
  | 0, _ => none
  | fuel + 1, cs => do
    let (item, rest) ← scanValue fuel cs
    match skipSpaces rest with
    | ',' :: more =>
      let (items, after) ← scanItems fuel more
      some (item :: items, after)
    | ']' :: after => some ([item], after)
    | _ => none

/-- The members from the first one to the closing brace. -/
def scanMembers : Nat → List Char → Option (List (Literal × Tree) × List Char)
  | 0, _ => none
  | fuel + 1, cs =>
    match skipSpaces cs with
    | '"' :: rest => do
      let (key, afterKey) ← scanString rest
      match skipSpaces afterKey with
      | ':' :: afterColon =>
        let (value, afterValue) ← scanValue fuel afterColon
        match skipSpaces afterValue with
        | ',' :: more =>
          let (members, after) ← scanMembers fuel more
          some ((key, value) :: members, after)
        | '\x7d' :: after => some ([(key, value)], after)
        | _ => none
      | _ => none
    | _ => none

end

def readChars? (cs : List Char) : Option Tree :=
  match scanValue (cs.length + 1) cs with
  | some (tree, rest) => if skipSpaces rest = [] then some tree else none
  | none => none

def read? (text : String) : Option Tree :=
  readChars? text.toList

mutual

/-- The data of a tree nested at most `room` levels deep. Numbers must be in range and strings
well formed; of repeated members the last one counts. -/
def toValue? (room : Nat) : Tree → Option Value
  | .null => some .null
  | .bool b => some (.bool b)
  | .number n => n.value?
  | .string s => s.map .string
  | .array items => if room = 0 then none else (toItems? (room - 1) items).map .array
  | .object members => if room = 0 then none else (toMembers? (room - 1) members).map .ofMembers

def toItems? (room : Nat) : List Tree → Option (List Value)
  | [] => some []
  | item :: rest => do some ((← toValue? room item) :: (← toItems? room rest))

def toMembers? (room : Nat) : List (Literal × Tree) → Option (List (String × Value))
  | [] => some []
  | (key, tree) :: rest => do
    some ((← key, ← toValue? room tree) :: (← toMembers? room rest))

end

end Tree

/-- The levels of arrays and objects that a document may nest. -/
def nestingLimit : Nat := 127

/-- The data of a JSON text. -/
def Value.read? (text : String) : Option Value := do
  (← Tree.read? text).toValue? nestingLimit

end ValidatorGen.Json
