import ValidatorGen.Settings.Setting
import ValidatorGen.Toml.Scan

/-!
Dates and times. A moment has a date, a time or both, and an offset only with both; its canonical
text is what settings see of it.
-/
namespace ValidatorGen.Toml

structure Date where
  year : Nat
  month : Nat
  day : Nat

structure Time where
  hour : Nat
  minute : Nat
  second : Nat
  /-- The fraction of a second, at most nine digits. -/
  fraction : List Char

inductive Offset
  | utc
  | shifted (negative : Bool) (hours minutes : Nat)

structure Moment where
  date : Option Date
  time : Option Time
  offset : Option Offset

open Scan

def isLeapYear (year : Nat) : Bool :=
  year % 4 == 0 && (year % 100 != 0 || year % 400 == 0)

def daysIn (year month : Nat) : Nat :=
  match month with
  | 2 => if isLeapYear year then 29 else 28
  | 4 | 6 | 9 | 11 => 30
  | _ => 31

/-- A number of exactly `count` digits. -/
def digits (count : Nat) : Scan Nat := do
  let ds ← (List.range count).mapM fun _ => oneOf Char.isDigit
  pure (Nat.ofDigitChars 10 ds 0)

/-- A number of two digits within bounds. -/
def twoDigits (low high : Nat) : Scan Nat := do
  let n ← digits 2
  if low ≤ n ∧ n ≤ high then pure n else failure

def Date.scan : Scan Date := do
  let year ← digits 4
  expect '-'
  let month ← twoDigits 1 12
  expect '-'
  let day ← twoDigits 1 (daysIn year month)
  pure { year, month, day }

def Time.scanFraction : Scan (List Char) := do
  if ← accept '.' then
    let first ← oneOf Char.isDigit
    let more ← takeWhile Char.isDigit
    pure ((first :: more).take 9)
  else pure []

/-- The last second of a minute may be a leap second. -/
def Time.scan : Scan Time := do
  let hour ← twoDigits 0 23
  expect ':'
  let minute ← twoDigits 0 59
  expect ':'
  let second ← twoDigits 0 60
  pure { hour, minute, second, fraction := ← scanFraction }

def Offset.scan : Scan Offset := do
  let sign ← oneOf fun c => c == 'Z' || c == 'z' || c == '+' || c == '-'
  if sign == 'Z' || sign == 'z' then pure .utc
  else
    let hours ← twoDigits 0 23
    expect ':'
    pure (.shifted (sign == '-') hours (← twoDigits 0 59))

def optional {α : Type} (s : Scan α) : Scan (Option α) :=
  (some <$> s) <|> pure none

/-- The time after a date, set off by a letter or one space. -/
def Moment.scanClock : Scan Time := do
  let _ ← oneOf fun c => c == 'T' || c == 't' || c == ' '
  Time.scan

def Moment.scanDated : Scan Moment := do
  let date ← Date.scan
  match ← optional scanClock with
  | none => pure { date := some date, time := none, offset := none }
  | some time => pure { date := some date, time := some time, offset := ← optional Offset.scan }

def Moment.scan : Scan Moment :=
  scanDated <|> do
    pure { date := none, time := some (← Time.scan), offset := none }

/-- A number with leading zeros up to a width. -/
def padded (width n : Nat) : List Char :=
  let digits := Nat.toDigits 10 n
  List.replicate (width - digits.length) '0' ++ digits

def Date.text (d : Date) : List Char :=
  padded 4 d.year ++ '-' :: padded 2 d.month ++ '-' :: padded 2 d.day

/-- Zeros at the end of the fraction are not written. -/
def Time.text (t : Time) : List Char :=
  let fraction := (t.fraction.reverse.dropWhile (· == '0')).reverse
  padded 2 t.hour ++ ':' :: padded 2 t.minute ++ ':' :: padded 2 t.second ++
    (if fraction = [] then [] else '.' :: fraction)

/-- A zero offset is never negative. -/
def Offset.text : Offset → List Char
  | .utc => ['Z']
  | .shifted negative hours minutes =>
    (if negative && hours + minutes != 0 then '-' else '+') ::
      (padded 2 hours ++ ':' :: padded 2 minutes)

def Moment.text (m : Moment) : String :=
  let separator := if m.date.isSome && m.time.isSome then ['T'] else []
  String.ofList ((m.date.map Date.text).getD [] ++ separator ++
    (m.time.map Time.text).getD [] ++ (m.offset.map Offset.text).getD [])

/-- A moment stands for a table with its canonical text as the one entry. -/
def Moment.toSetting (m : Moment) : Setting :=
  .table [("$__toml_private_datetime", .text m.text)]

end ValidatorGen.Toml
