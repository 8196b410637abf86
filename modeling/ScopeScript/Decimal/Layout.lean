import ScopeScript.Decimal.Shortest

namespace ScopeScript.Decimal

def zeros (count : Nat) : List Char := List.replicate count '0'

-- Digits written out in full, with a point only where a fraction follows.
def positional (d : Digits) : List Char :=
  let ds := digitsOf d.digits
  let places := (-d.scale).toNat
  if 0 ≤ d.scale then ds ++ zeros d.scale.toNat
  else if places < ds.length then ds.take (ds.length - places) ++ '.' :: ds.drop (ds.length - places)
  else '0' :: '.' :: zeros (places - ds.length) ++ ds

def signed (negative : Bool) (text : List Char) : String :=
  String.ofList (if negative then '-' :: text else text)

-- The shortest digits that read back, never with an exponent.
def plain (x : Float) : String :=
  match Double.ofFloat x with
  | .undefined => "NaN"
  | .infinite negative => signed negative "inf".toList
  | .finite negative size => signed negative (positional (size.shortest .up))

-- A whole number keeps every digit of its exact value and takes one fractional zero.
def withPoint (x : Float) : String :=
  match Double.ofFloat x with
  | .finite negative size =>
    match size.whole? with
    | some n => signed negative (digitsOf n ++ ".0".toList)
    | none => plain x
  | _ => plain x

-- Like withPoint below 2 ^ 63, where zero also loses its sign; plain from there on.
def listed (x : Float) : String :=
  match Double.ofFloat x with
  | .finite negative size =>
    match size.whole? with
    | some n =>
      if n < Nat.pow 2 63 then signed (negative && n != 0) (digitsOf n ++ ".0".toList)
      else plain x
    | none => plain x
  | _ => plain x

-- One digit, the others after a point, and the power of ten with its sign.
def scientific (d : Digits) (power : Int) : List Char :=
  let mantissa := match digitsOf d.digits with
    | [] => []
    | [only] => [only]
    | first :: rest => first :: '.' :: rest
  let sign := if power < 0 then '-' else '+'
  mantissa ++ 'e' :: sign :: digitsOf power.natAbs

-- Document notation: positional with a fraction while the leading digit stands for
-- 10 ^ -5 up to 10 ^ 15, scientific elsewhere. Only finite numbers have a text.
def documented? (x : Float) : Option String :=
  match Double.ofFloat x with
  | .finite negative size =>
    let d := size.shortest .toEven
    let power := ((digitsOf d.digits).length : Int) + d.scale - 1
    if -5 ≤ power ∧ power ≤ 15 then
      some (signed negative (positional d ++ if 0 ≤ d.scale then ".0".toList else []))
    else some (signed negative (scientific d power))
  | _ => none

def numeral (ds : List Char) : Nat :=
  ds.foldl (fun n c => 10 * n + (c.toNat - '0'.toNat)) 0

-- The double nearest to whole.fraction.
def ofDigits (whole fraction : List Char) : Float :=
  Float.ofScientific (numeral (whole ++ fraction)) true fraction.length

end ScopeScript.Decimal
