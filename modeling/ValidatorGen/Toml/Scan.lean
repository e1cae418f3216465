/-!
Scanning text: a scanner takes characters from the front of the text or fails. Beside the basic
steps stand the blanks, line ends and comments of TOML.
-/
namespace ValidatorGen.Toml

abbrev Scan (α : Type) := StateT (List Char) Option α

namespace Scan

def expect (c : Char) : Scan Unit := fun
  | [] => none
  | d :: rest => if d = c then some ((), rest) else none

def expectAll (text : String) : Scan Unit :=
  text.toList.forM expect

def oneOf (p : Char → Bool) : Scan Char := fun
  | [] => none
  | c :: rest => if p c then some (c, rest) else none

def takeWhile (p : Char → Bool) : Scan (List Char) := fun cs =>
  some (cs.takeWhile p, cs.dropWhile p)

/-- Whether the text goes on with `c`, which is then taken. -/
def accept (c : Char) : Scan Bool := fun
  | [] => some (false, [])
  | d :: rest => if d = c then some (true, rest) else some (false, d :: rest)

def rest : Scan (List Char) := get

def isBlank (c : Char) : Bool :=
  c == ' ' || c == '\t'

def isAsciiControl (c : Char) : Bool :=
  c.toNat < 0x20 || c.toNat == 0x7F

/-- Characters of a comment, and of a string where they do not end it: tabs and all that is no
control character of ASCII. -/
def isText (c : Char) : Bool :=
  c == '\t' || !isAsciiControl c

def blanks : Scan Unit := fun cs =>
  some ((), cs.dropWhile isBlank)

/-- What follows a line end at the front. -/
def afterLineEnd? : List Char → Option (List Char)
  | '\n' :: rest => some rest
  | '\r' :: '\n' :: rest => some rest
  | _ => none

/-- Blanks and a comment, up to the end of the line or of the text. -/
def lineTail : Scan Unit := do
  blanks
  if ← accept '#' then
    let _ ← takeWhile isText
  match ← rest with
  | [] => pure ()
  | cs => fun _ => (afterLineEnd? cs).map ((), ·)

/-- Skips blanks, line ends and comments; a comment must be well formed. -/
def skipGap : (inComment : Bool) → List Char → Option (List Char)
  | false, ' ' :: rest => skipGap false rest
  | false, '\t' :: rest => skipGap false rest
  | false, '#' :: rest => skipGap true rest
  | _, '\n' :: rest => skipGap false rest
  | _, '\r' :: '\n' :: rest => skipGap false rest
  | true, c :: rest => if isText c then skipGap true rest else none
  | _, cs => some cs

def gap : Scan Unit := fun cs =>
  (skipGap false cs).map ((), ·)

end Scan

end ValidatorGen.Toml
