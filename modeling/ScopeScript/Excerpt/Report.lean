import ScopeScript.Excerpt.Place
import ScopeScript.Text.Width
import ScopeScript.Decimal.Layout

namespace ScopeScript.Excerpt

inductive Severity where
  | error
  | warning
  deriving DecidableEq, Repr

def Severity.title : Severity → String
  | error => "Error"
  | warning => "Warning"

-- Characters that end a row of a report; a carriage return with a line feed ends one row.
def endsRow (c : Char) : Bool :=
  c == '\n' || c == '\r' || c == '\x0b' || c == '\x0c' || c == '\u0085' || c == '\u2028' ||
    c == '\u2029'

-- The rows of a source, each with its ending.
def rows : List Char → List (List Char)
  | [] => []
  | '\r' :: '\n' :: rest => ['\r', '\n'] :: rows rest
  | c :: rest =>
    if endsRow c then [c] :: rows rest
    else
      match rows rest with
      | [] => [[c]]
      | row :: more => (c :: row) :: more

-- A row, its number and the index in it that an offset falls on. The end of the source
-- belongs to the last row.
structure Spot where
  row : List Char
  number : Nat
  index : Nat
  deriving DecidableEq

def spotFrom? (number offset : Nat) : List (List Char) → Option Spot
  | [] => none
  | [row] => some ⟨row, number, offset⟩
  | row :: next :: more =>
    if offset < row.length then some ⟨row, number, offset⟩
    else spotFrom? (number + 1) (offset - row.length) (next :: more)

def spot? (source : List Char) (offset : Nat) : Option Spot := spotFrom? 1 offset (rows source)

def trimmed (row : List Char) : List Char := (row.reverse.dropWhile Text.isSpace).reverse

def spaces (count : Nat) : List Char := List.replicate count ' '

-- A row as shown: whatever separates turned into as many spaces as the columns it takes.
def shownFrom : Nat → List Char → List Char
  | _, [] => []
  | index, c :: rest =>
    (if Text.isSpace c then spaces (Text.width index c) else [c]) ++ shownFrom (index + 1) rest

-- The columns of an index of a row; one behind its end.
def widthAt (row : List Char) (index : Nat) : Nat :=
  match row[index]? with
  | some c => Text.width index c
  | none => 1

-- A sign over so many columns.
def stretched (sign filler : Char) : Nat → List Char
  | 0 => []
  | columns + 1 => sign :: List.replicate columns filler

-- One row of marks under a row of source, up to an index.
def markRow (row : List Char) (last : Nat) (mark : Nat → Nat → List Char) : List Char :=
  (List.range (last + 1)).flatMap fun index => mark index (widthAt row index)

-- The row with the arrow's head. An empty span is pointed at, not underlined.
def headRow (row : List Char) (index last : Nat) (pointing : Bool) : List Char :=
  markRow row last fun at_ columns =>
    if at_ = index then
      if pointing then stretched '│' ' ' columns else stretched '┬' '─' columns
    else spaces columns

-- The row that leads from the arrow to the message.
def tailRow (row : List Char) (index last : Nat) : List Char :=
  markRow row last fun at_ columns =>
    if at_ < index then spaces columns
    else if at_ = index then stretched '╰' '─' columns
    else List.replicate columns '─'

-- The boxed row of source with the message under it.
def boxed (severity : Severity) (spot : Spot) (pointing : Bool) (message : String) : String :=
  let row := trimmed spot.row
  let number := String.ofList (Decimal.digitsOf spot.number)
  let column := String.ofList (Decimal.digitsOf (spot.index + 1))
  let margin := String.ofList (spaces (number.length + 2))
  let last := spot.index + (if pointing then 1 else 2)
  severity.title ++ ": " ++ message ++ "\n" ++
    margin ++ "╭─[ <input>:" ++ number ++ ":" ++ column ++ " ]\n" ++
    margin ++ "│\n" ++
    " " ++ number ++ " │ " ++ String.ofList (shownFrom 0 row) ++ "\n" ++
    margin ++ "│ " ++ String.ofList (headRow row spot.index last pointing) ++ "\n" ++
    margin ++ "│ " ++ String.ofList (tailRow row spot.index last) ++ " " ++ message ++ "\n" ++
    String.ofList (List.replicate (number.length + 2) '─') ++ "╯\n"

-- A message with the place it speaks of, or alone where the source has no such place.
def report (source : String) (severity : Severity) (line column : Nat) (message : String) :
    String :=
  let source := source.toList
  let found := (span? source line column).bind fun span =>
    (spot? source span.1).map fun spot => (spot, span.1 == span.2)
  match found with
  | some (spot, pointing) => boxed severity spot pointing message
  | none => message ++ "\n"

end ScopeScript.Excerpt
