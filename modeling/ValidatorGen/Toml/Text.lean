import ValidatorGen.Text.Quoted
import ValidatorGen.Toml.Scan

/-!
TOML strings: basic ones with escapes, literal ones without, each on one line or on several.
-/
namespace ValidatorGen.Toml.Text

open ValidatorGen.Text.Quoted (hexNumber?)

/-- The character of a code point that is no surrogate. -/
def scalar? (digits : List Char) : Option Char :=
  match hexNumber? digits with
  | some code => if code.isValidChar then some (Char.ofNat code) else none
  | none => none

def unescape? : Char → Option Char
  | 'b' => some '\x08'
  | 'f' => some '\x0C'
  | 'n' => some '\n'
  | 'r' => some '\r'
  | 't' => some '\t'
  | '"' => some '"'
  | '\\' => some '\\'
  | _ => none

/-- Puts a character in front of a text that has been read. -/
def push (c : Option Char) (found : Option (List Char × List Char)) :
    Option (List Char × List Char) := do
  let (text, rest) ← found
  some ((← c) :: text, rest)

/-- A basic string after its opening quote. -/
def basicBody : List Char → Option (List Char × List Char)
  | '"' :: rest => some ([], rest)
  | '\\' :: 'u' :: a :: b :: c :: d :: rest => push (scalar? [a, b, c, d]) (basicBody rest)
  | '\\' :: 'U' :: a :: b :: c :: d :: e :: f :: g :: h :: rest =>
    push (scalar? [a, b, c, d, e, f, g, h]) (basicBody rest)
  | '\\' :: e :: rest => push (unescape? e) (basicBody rest)
  | c :: rest => if Scan.isText c then push (some c) (basicBody rest) else none
  | [] => none

/-- A literal string after its opening quote. -/
def literalBody : List Char → Option (List Char × List Char)
  | '\x27' :: rest => some ([], rest)
  | c :: rest => if Scan.isText c then push (some c) (literalBody rest) else none
  | [] => none

/-- After three closing quotes at most two more belong to the content. -/
def closing (quote : Char) (cs : List Char) : Option (List Char × List Char) :=
  let extra := cs.takeWhile (· == quote)
  if extra.length ≤ 2 then some (extra, cs.dropWhile (· == quote)) else none

def breaksLine (cs : List Char) : Bool :=
  (Scan.afterLineEnd? (cs.dropWhile Scan.isBlank)).isSome

/-- A basic string over several lines after its opening quotes. A backslash at the end of a line
skips all blanks and line ends that follow. -/
def basicLines : (skipping : Bool) → List Char → Option (List Char × List Char)
  | true, ' ' :: rest => basicLines true rest
  | true, '\t' :: rest => basicLines true rest
  | true, '\n' :: rest => basicLines true rest
  | true, '\r' :: '\n' :: rest => basicLines true rest
  | _, '"' :: '"' :: '"' :: rest => closing '"' rest
  | _, '\\' :: 'u' :: a :: b :: c :: d :: rest =>
    push (scalar? [a, b, c, d]) (basicLines false rest)
  | _, '\\' :: 'U' :: a :: b :: c :: d :: e :: f :: g :: h :: rest =>
    push (scalar? [a, b, c, d, e, f, g, h]) (basicLines false rest)
  | _, '\\' :: e :: rest =>
    if breaksLine (e :: rest) then basicLines true (e :: rest)
    else push (unescape? e) (basicLines false rest)
  | _, '\n' :: rest => push (some '\n') (basicLines false rest)
  | _, '\r' :: '\n' :: rest => push (some '\n') (basicLines false rest)
  | _, c :: rest => if Scan.isText c then push (some c) (basicLines false rest) else none
  | _, [] => none

/-- A literal string over several lines after its opening quotes. -/
def literalLines : List Char → Option (List Char × List Char)
  | '\x27' :: '\x27' :: '\x27' :: rest => closing '\x27' rest
  | '\n' :: rest => push (some '\n') (literalLines rest)
  | '\r' :: '\n' :: rest => push (some '\n') (literalLines rest)
  | c :: rest => if Scan.isText c then push (some c) (literalLines rest) else none
  | [] => none

/-- A line end directly after the opening quotes is no content. -/
def afterOpening (cs : List Char) : List Char :=
  (Scan.afterLineEnd? cs).getD cs

/-- A string on one line, as keys and values have it. -/
def line? : List Char → Option (List Char × List Char)
  | '"' :: rest => basicBody rest
  | '\x27' :: rest => literalBody rest
  | _ => none

/-- A string on one line or on several. -/
def string? : List Char → Option (List Char × List Char)
  | '"' :: '"' :: '"' :: rest => basicLines false (afterOpening rest)
  | '\x27' :: '\x27' :: '\x27' :: rest => literalLines (afterOpening rest)
  | cs => line? cs

end ValidatorGen.Toml.Text
