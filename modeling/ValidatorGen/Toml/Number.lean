import ValidatorGen.Toml.Scan

/-!
TOML numbers. Settings never use the value of a number, so scanning one only decides whether it is
well formed and in range: integers of 64 bits, and floats that do not round to positive infinity.
-/
namespace ValidatorGen.Toml.Number

open Scan

/-- Digits with single underscores between them, as the digits alone. -/
def groups (isDigit : Char → Bool) : List Char → Option (List Char × List Char)
  | c :: '_' :: rest =>
    if isDigit c then (groups isDigit rest).map fun (ds, after) => (c :: ds, after) else none
  | c :: rest =>
    if isDigit c then
      match groups isDigit rest with
      | some (ds, after) => some (c :: ds, after)
      | none => if rest.head?.any isDigit then none else some ([c], rest)
    else none
  | [] => none

def isNegative : Scan Bool := do
  if ← accept '-' then pure true
  else do
    let _ ← accept '+'
    pure false

/-- Decimal digits without a redundant leading zero. -/
def whole : Scan (List Char) := do
  if ← accept '0' then pure ['0']
  else groups Char.isDigit

def fraction : Scan (List Char) := do
  expect '.'
  groups Char.isDigit

def exponent : Scan Int := do
  let _ ← oneOf fun c => c == 'e' || c == 'E'
  let negative ← isNegative
  let magnitude : Int := Nat.ofDigitChars 10 (← groups Char.isDigit) 0
  pure (if negative then -magnitude else magnitude)

/-- Whether `mantissa * 10 ^ exponent` rounds to infinity among the doubles. Far from the bound the
count of digits decides. -/
def roundsToInfinity (mantissa : Nat) (exponent : Int) : Bool :=
  let magnitude := (Nat.toDigits 10 mantissa).length + exponent
  let bound := (1 <<< 1024) - (1 <<< 970)
  if mantissa = 0 ∨ magnitude < 300 then false
  else if 320 < magnitude then true
  else mantissa * Nat.pow 10 exponent.toNat ≥ bound * Nat.pow 10 (-exponent).toNat

/-- Fails unless the condition holds. -/
def require (ok : Bool) : Scan Unit :=
  if ok then pure () else failure

def decimalFloat : Scan Unit := do
  let negative ← isNegative
  let front ← whole
  let places ← fraction <|> pure []
  let scale ← if places = [] then exponent else exponent <|> pure 0
  let mantissa := Nat.ofDigitChars 10 (front ++ places) 0
  require (negative || !roundsToInfinity mantissa (scale - places.length))

def specialFloat : Scan Unit := do
  let _ ← isNegative
  expectAll "inf" <|> expectAll "nan"

def hexDigit (c : Char) : Bool :=
  c.isDigit || ('a' ≤ c && c ≤ 'f') || ('A' ≤ c && c ≤ 'F')

/-- The value of a digit in bases up to sixteen. -/
def digitValue (c : Char) : Nat :=
  if c.isDigit then c.toNat - '0'.toNat else c.toLower.toNat - 'a'.toNat + 10

def inBase (mark : String) (base : Nat) (isDigit : Char → Bool) : Scan Unit := do
  expectAll mark
  let ds ← groups isDigit
  require (ds.foldl (fun n c => base * n + digitValue c) 0 < 1 <<< 63)

def decimalInteger : Scan Unit := do
  let negative ← isNegative
  let magnitude := Nat.ofDigitChars 10 (← whole) 0
  require (if negative then magnitude ≤ 1 <<< 63 else magnitude < 1 <<< 63)

def integer : Scan Unit :=
  inBase "0x" 16 hexDigit <|> inBase "0o" 8 (fun c => '0' ≤ c && c ≤ '7') <|>
    inBase "0b" 2 (fun c => c == '0' || c == '1') <|> decimalInteger

def scan : Scan Unit :=
  decimalFloat <|> specialFloat <|> integer

end ValidatorGen.Toml.Number
