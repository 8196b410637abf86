namespace ScopeScript.Text

-- Bytes that are no text: how many from which index belong to no character,
-- or the index of a character that the end cuts off.
inductive Utf8Fault where
  | invalid (length index : Nat)
  | incomplete (index : Nat)
  deriving DecidableEq, Repr

def tailByte : Nat × Nat := (0x80, 0xbf)

-- The ranges of the bytes that follow a lead byte.
def followers? (lead : Nat) : Option (List (Nat × Nat)) :=
  if lead < 0x80 then some []
  else if lead < 0xc2 then none
  else if lead < 0xe0 then some [tailByte]
  else if lead = 0xe0 then some [(0xa0, 0xbf), tailByte]
  else if lead = 0xed then some [(0x80, 0x9f), tailByte]
  else if lead < 0xf0 then some [tailByte, tailByte]
  else if lead = 0xf0 then some [(0x90, 0xbf), tailByte, tailByte]
  else if lead < 0xf4 then some [tailByte, tailByte, tailByte]
  else if lead = 0xf4 then some [(0x80, 0x8f), tailByte, tailByte]
  else none

-- The bits that a lead byte with so many followers gives to its character.
def leadBits (lead : Nat) : Nat → Nat
  | 0 => lead
  | 1 => lead % 0x20
  | 2 => lead % 0x10
  | _ => lead % 0x08

-- How the bytes behind a lead byte fit its ranges.
inductive Followed where
  | fully (code : Nat)
  | brokenAfter (count : Nat)
  | cutOff
  deriving DecidableEq, Repr

def follow (code count : Nat) : List (Nat × Nat) → List UInt8 → Followed
  | [], _ => .fully code
  | _ :: _, [] => .cutOff
  | (low, high) :: ranges, byte :: bytes =>
    if low ≤ byte.toNat ∧ byte.toNat ≤ high then
      follow (code * 64 + byte.toNat % 64) (count + 1) ranges bytes
    else .brokenAfter count

-- One character, or one fault, at the start of some bytes, with the number of bytes it takes.
def firstChar (index : Nat) (lead : UInt8) (rest : List UInt8) : Except Utf8Fault Char × Nat :=
  match followers? lead.toNat with
  | none => (.error (.invalid 1 index), 1)
  | some ranges =>
    match follow (leadBits lead.toNat ranges.length) 0 ranges rest with
    | .fully code => (.ok (Char.ofNat code), ranges.length + 1)
    | .brokenAfter count => (.error (.invalid (count + 1) index), count + 1)
    | .cutOff => (.error (.incomplete index), rest.length + 1)

-- Characters and faults in order.
def charsFrom (index : Nat) : List UInt8 → List (Except Utf8Fault Char)
  | [] => []
  | lead :: rest =>
    let (found, length) := firstChar index lead rest
    found :: charsFrom (index + length) (rest.drop (length - 1))
termination_by bytes => bytes.length
decreasing_by simp only [List.length_cons, List.length_drop]; omega

-- The text that bytes stand for, or the first fault in them.
def decode (bytes : ByteArray) : Except Utf8Fault String :=
  ((charsFrom 0 bytes.toList).mapM id).map String.ofList

-- Every fault becomes one replacement character.
def decodeAny (bytes : ByteArray) : String :=
  String.ofList ((charsFrom 0 bytes.toList).map fun found =>
    match found with
    | .ok c => c
    | .error _ => '\ufffd')

def count (n : Nat) : String := String.ofList (Nat.toDigits 10 n)

def Utf8Fault.message : Utf8Fault → String
  | invalid length index =>
    "invalid utf-8 sequence of " ++ count length ++ " bytes from index " ++ count index
  | incomplete index => "incomplete utf-8 byte sequence from index " ++ count index

end ScopeScript.Text
