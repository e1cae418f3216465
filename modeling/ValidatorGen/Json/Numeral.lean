import ValidatorGen.Json.Value

/-!
Number literals and what they denote. A literal without point and exponent is an integer when it
has 64 bits. Any other literal is a double: its leading digits that fit 64 bits are rounded once
and scaled by one rounded power of ten at a time, and a literal beyond the finite doubles denotes
nothing.
-/
namespace ValidatorGen.Json

structure Exponent where
  negative : Bool
  digits : List Char
  deriving DecidableEq, Repr

/-- A literal as written; the fraction is empty exactly when no point is written. -/
structure Numeral where
  negative : Bool
  whole : List Char
  fraction : List Char
  exponent : Option Exponent
  deriving DecidableEq, Repr

namespace Numeral

/-- Digits at the front, at least one. -/
def digits? (cs : List Char) : Option (List Char × List Char) :=
  let digits := cs.takeWhile Char.isDigit
  if digits = [] then none else some (digits, cs.dropWhile Char.isDigit)

/-- Digits at the front without a redundant leading zero. -/
def whole? (cs : List Char) : Option (List Char × List Char) :=
  match digits? cs with
  | some ('0' :: _ :: _, _) => none
  | found => found

def fraction? : List Char → Option (List Char × List Char)
  | '.' :: rest => digits? rest
  | rest => some ([], rest)

def sign : List Char → Bool × List Char
  | '-' :: rest => (true, rest)
  | '+' :: rest => (false, rest)
  | rest => (false, rest)

def exponent? : List Char → Option (Option Exponent × List Char)
  | c :: rest =>
    if c = 'e' ∨ c = 'E' then
      (digits? (sign rest).2).map fun (digits, after) => (some ⟨(sign rest).1, digits⟩, after)
    else some (none, c :: rest)
  | [] => some (none, [])

def unsigned? (negative : Bool) (cs : List Char) : Option (Numeral × List Char) := do
  let (whole, afterWhole) ← whole? cs
  let (fraction, afterFraction) ← fraction? afterWhole
  let (exponent, after) ← exponent? afterFraction
  some (⟨negative, whole, fraction, exponent⟩, after)

/-- The literal at the front, and what follows it. -/
def scan : List Char → Option (Numeral × List Char)
  | '-' :: rest => unsigned? true rest
  | rest => unsigned? false rest

/-- Takes digits onto `total` while it stays below `2 ^ 64`; the digits that are left over. -/
def accumulate (total : Nat) : List Char → Nat × List Char
  | [] => (total, [])
  | d :: rest =>
    let next := 10 * total + (d.toNat - '0'.toNat)
    if next < 1 <<< 64 then accumulate next rest else (total, d :: rest)

/-- Scales by a power of ten; nothing when the result leaves the finite doubles. -/
def scale (x : Float) (exponent : Int) : Option Float :=
  if exponent.natAbs ≤ 308 then
    let power := Float.ofScientific 1 false exponent.natAbs
    if 0 ≤ exponent then
      let scaled := x * power
      if scaled.isInf then none else some scaled
    else some (x / power)
  else if x == 0 then some x
  else if 0 ≤ exponent then none
  else scale (x / 1e308) (exponent + 308)
termination_by exponent.natAbs
decreasing_by omega

def Exponent.toInt (e : Exponent) : Int :=
  let magnitude : Int := Nat.ofDigitChars 10 e.digits 0
  if e.negative then -magnitude else magnitude

def float? (n : Numeral) : Option Float :=
  let (leading, dropped) := accumulate 0 n.whole
  let (significand, ignored) := accumulate leading n.fraction
  let written := (n.exponent.map Exponent.toInt).getD 0
  let places : Int := dropped.length - (n.fraction.length - ignored.length)
  (scale significand.toUInt64.toFloat (written + places)).map fun x => if n.negative then -x else x

/-- The integer of a literal without point and exponent; a negative zero has none. -/
def integer? (n : Numeral) : Option Integer :=
  if n.fraction = [] ∧ n.exponent = none then
    let magnitude := Nat.ofDigitChars 10 n.whole 0
    if n.negative then
      if magnitude = 0 then none else Integer.ofInt? (-magnitude)
    else Integer.ofInt? magnitude
  else none

def value? (n : Numeral) : Option Value :=
  match n.integer? with
  | some k => some (.integer k)
  | none => n.float?.map .float

end Numeral

end ValidatorGen.Json
