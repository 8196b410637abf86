namespace ScopeScript.Decimal

-- The size significand * 2 ^ exponent of a finite double.
structure Magnitude where
  significand : Nat
  exponent : Int
  deriving DecidableEq, Repr

-- What the bits of a double say. Both zeros are finite with significand zero.
inductive Double where
  | finite (negative : Bool) (size : Magnitude)
  | infinite (negative : Bool)
  | undefined
  deriving DecidableEq, Repr

def hiddenBit : Nat := Nat.pow 2 52

-- The least exponent, shared by subnormal doubles and the first normal ones.
def leastExponent : Int := -1074

def Double.ofBits (bits : Nat) : Double :=
  let negative := bits / Nat.pow 2 63 % 2 == 1
  let field := bits / hiddenBit % 2048
  let fraction := bits % hiddenBit
  if field = 2047 then
    if fraction = 0 then .infinite negative else .undefined
  else if field = 0 then .finite negative ⟨fraction, leastExponent⟩
  else .finite negative ⟨hiddenBit + fraction, leastExponent + (field - 1 : Nat)⟩

def Double.ofFloat (x : Float) : Double :=
  .ofBits x.toBits.toNat

-- The value itself, when it is a whole number.
def Magnitude.whole? (size : Magnitude) : Option Nat :=
  let shift := Nat.pow 2 size.exponent.natAbs
  if 0 ≤ size.exponent then some (size.significand * shift)
  else if size.significand % shift = 0 then some (size.significand / shift)
  else none

theorem Magnitude.whole?_of_nonneg (size : Magnitude) (h : 0 ≤ size.exponent) :
    size.whole? = some (size.significand * Nat.pow 2 size.exponent.natAbs) := by
  simp [whole?, h]

end ScopeScript.Decimal
