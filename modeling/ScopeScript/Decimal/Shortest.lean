import ScopeScript.Decimal.Magnitude

namespace ScopeScript.Decimal

-- The number digits * 10 ^ scale.
structure Digits where
  digits : Nat
  scale : Int
  deriving DecidableEq, Repr

-- Which neighbour an exact half goes to.
inductive Tie where
  | up
  | toEven
  deriving DecidableEq, Repr

def digitsOf (n : Nat) : List Char := Nat.toDigits 10 n

-- One size on the decimal grid 10 ^ scale, as a quotient over a common denominator:
-- a grid point g compares with b * 2 ^ (exponent - 2) as g * denominator with b * numerator.
structure Grid where
  numerator : Nat
  denominator : Nat

def Grid.at (exponent scale : Int) : Grid :=
  let quarter := exponent - 2
  ⟨Nat.pow 2 quarter.toNat * Nat.pow 10 (-scale).toNat,
    Nat.pow 2 (-quarter).toNat * Nat.pow 10 scale.toNat⟩

-- The reals that round to a size lie between these two multiples of a quarter unit;
-- the ends belong to them exactly when the significand is even.
def Magnitude.lowest (size : Magnitude) : Nat :=
  if size.significand = hiddenBit ∧ leastExponent < size.exponent then 4 * size.significand - 1
  else 4 * size.significand - 2

def Magnitude.highest (size : Magnitude) : Nat :=
  4 * size.significand + 2

def Magnitude.holds (size : Magnitude) (grid : Grid) (point : Nat) : Bool :=
  let here := point * grid.denominator
  let low := size.lowest * grid.numerator
  let high := size.highest * grid.numerator
  if size.significand % 2 = 0 then low ≤ here && here ≤ high else low < here && here < high

def Tie.choose (tie : Tie) (low : Nat) : Nat :=
  match tie with
  | .up => low + 1
  | .toEven => if low % 2 = 0 then low else low + 1

-- Of the two grid points around a size, the nearer one that still reads back as it.
def Magnitude.nearby? (size : Magnitude) (tie : Tie) (scale : Int) : Option Nat :=
  let grid := Grid.at size.exponent scale
  let exact := 4 * size.significand * grid.numerator
  let low := exact / grid.denominator
  let high := low + 1
  match size.holds grid low, size.holds grid high with
  | false, false => none
  | true, false => some low
  | false, true => some high
  | true, true =>
    let twice := 2 * exact
    let middle := (low + high) * grid.denominator
    if twice < middle then some low
    else if middle < twice then some high
    else some (tie.choose low)

-- The exponent of the leading decimal digit of a nonzero size.
def Magnitude.leading (size : Magnitude) : Int :=
  let above := size.significand * Nat.pow 2 size.exponent.toNat
  let below := Nat.pow 2 (-size.exponent).toNat
  if below ≤ above then (digitsOf (above / below)).length - 1
  else -((digitsOf ((below + above - 1) / above - 1)).length : Int)

def Digits.trim : Nat → Digits → Digits
  | 0, d => d
  | fuel + 1, d => if d.digits % 10 = 0 then trim fuel ⟨d.digits / 10, d.scale + 1⟩ else d

-- The fewest digits that read back as the size, and of those the nearest to it.
-- Seventeen digits always suffice for a double.
def Magnitude.shortest (size : Magnitude) (tie : Tie) : Digits :=
  if size.significand = 0 then ⟨0, 0⟩
  else
    let leading := size.leading
    let found := (List.range 17).findSome? fun (n : Nat) =>
      let scale := leading - n
      (size.nearby? tie scale).map fun point => Digits.trim 18 ⟨point, scale⟩
    found.getD ⟨size.significand, size.exponent⟩

end ScopeScript.Decimal
