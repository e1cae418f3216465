/-!
Decimal texts of doubles. A finite double is a sign, a natural mantissa and a power of two. Its
decimal is the shortest one that reads back: among the multiples of a power of ten that round to the
double, the largest such power is taken and of its multiples the one nearest to the double, the even
one on a tie. It is written positionally, with at least one place, from `10 ^ -5` up to below
`10 ^ 16`, and otherwise in scientific form with a signed exponent.
-/
namespace ValidatorGen.Decimal

structure Binary where
  negative : Bool
  mantissa : Nat
  exponent : Int
  deriving DecidableEq, Repr

/-- The exact magnitude is `mantissa * 2 ^ exponent`; infinities and NaN are not meant. -/
def Binary.ofBits (bits : Nat) : Binary :=
  let fraction : Nat := bits % (1 <<< 52)
  let biased : Nat := (bits >>> 52) % (1 <<< 11)
  { negative := (bits >>> 63) % 2 == 1
    mantissa := if biased = 0 then fraction else (1 <<< 52) + fraction
    exponent := if biased = 0 then -1074 else (biased : Int) - 1075 }

def Binary.ofFloat (x : Float) : Binary :=
  .ofBits x.toBits.toNat

/-- The double below is nearer than the one above exactly at the smallest normal mantissa. -/
def Binary.isLopsided (x : Binary) : Bool :=
  x.mantissa == (1 <<< 52) && x.exponent > -1074

/-- The number `digits * 10 ^ exponent`. -/
structure Scaled where
  digits : Nat
  exponent : Int
  deriving DecidableEq, Repr

/-- The multiples of `step` beside a double: `value` is the double, `low` and `high` bound what
rounds to it, all on one integral scale, and `closed` says that the bounds round to it too. -/
structure Grid where
  step : Nat
  value : Nat
  low : Nat
  high : Nat
  closed : Bool

/-- The multiples of `10 ^ exponent` beside `x`. -/
def Grid.of (x : Binary) (exponent : Int) : Grid :=
  let ulp := Nat.pow 10 (-exponent).toNat <<< x.exponent.toNat
  let value := 4 * x.mantissa * ulp
  { step := 4 * (Nat.pow 10 exponent.toNat <<< (-x.exponent).toNat)
    value := value
    low := value - (if x.isLopsided then 1 else 2) * ulp
    high := value + 2 * ulp
    closed := x.mantissa % 2 == 0 }

def Grid.holds (g : Grid) (n : Nat) : Bool :=
  let point := n * g.step
  if g.closed then g.low ≤ point && point ≤ g.high else g.low < point && point < g.high

/-- The multiple to write, as a factor of the step, if one rounds to the double. -/
def Grid.pick? (g : Grid) : Option Nat :=
  let below := g.value / g.step
  let above := below + 1
  match g.holds below, g.holds above with
  | false, false => none
  | true, false => some below
  | false, true => some above
  | true, true =>
    let down := g.value - below * g.step
    let up := above * g.step - g.value
    if down < up then some below
    else if up < down then some above
    else some (if below % 2 = 0 then below else above)

/-- Tries the exponents downward from `top`, at most `count` of them. -/
def searchDown (x : Binary) (top : Int) : Nat → Scaled
  | 0 => ⟨0, 0⟩
  | count + 1 =>
    match (Grid.of x top).pick? with
    | some digits => ⟨digits, top⟩
    | none => searchDown x (top - 1) count

/-- The shortest decimal of a positive double; its last digit is not zero. -/
def shortest (x : Binary) : Scaled :=
  searchDown x 309 640

/-- The powers of ten of the leading digit that have positional form. -/
structure Layout where
  lowest : Int
  highest : Int

def layout : Layout := ⟨-5, 15⟩

def zeros (count : Nat) : List Char :=
  List.replicate count '0'

def Layout.positional (digits : List Char) (exponent : Int) : List Char :=
  let point := digits.length + exponent
  if 0 ≤ exponent then digits ++ zeros exponent.toNat ++ ['.', '0']
  else if 0 < point then digits.take point.toNat ++ '.' :: digits.drop point.toNat
  else '0' :: '.' :: (zeros (-point).toNat ++ digits)

def Layout.scientific (digits : List Char) (leading : Int) : List Char :=
  let significand :=
    match digits with
    | first :: second :: more => first :: '.' :: second :: more
    | short => short
  significand ++ 'e' :: (if 0 ≤ leading then '+' else '-') :: Nat.toDigits 10 leading.natAbs

def Layout.write (l : Layout) (d : Scaled) : List Char :=
  let digits := Nat.toDigits 10 d.digits
  let leading := digits.length + d.exponent - 1
  if l.lowest ≤ leading ∧ leading ≤ l.highest then positional digits d.exponent
  else scientific digits leading

/-- The text of a finite double. -/
def text (x : Float) : String :=
  let b := Binary.ofFloat x
  let magnitude := if b.mantissa = 0 then ['0', '.', '0'] else layout.write (shortest b)
  String.ofList (if b.negative then '-' :: magnitude else magnitude)

end ValidatorGen.Decimal
