import ScopeScript.Decimal.Layout

namespace ScopeScript

-- Structured output. Object fields keep the order in which they are given.
inductive Document where
  | absent
  | count (n : Nat)
  | number (x : Float)
  | text (s : String)
  | list (entries : List Document)
  | object (fields : List (String × Document))

namespace Document

def hexDigits (n : Nat) : List Char := Nat.toDigits 16 n

def escape (c : Char) : List Char :=
  if c = '\x22' then ['\\', '\x22']
  else if c = '\\' then ['\\', '\\']
  else if c = '\x08' then ['\\', 'b']
  else if c = '\x0c' then ['\\', 'f']
  else if c = '\n' then ['\\', 'n']
  else if c = '\r' then ['\\', 'r']
  else if c = '\t' then ['\\', 't']
  else if c.toNat < 32 then
    let hex := hexDigits c.toNat
    '\\' :: 'u' :: Decimal.zeros (4 - hex.length) ++ hex
  else [c]

def quoted (s : String) : String :=
  "\"" ++ String.ofList (s.toList.flatMap escape) ++ "\""

def margin (depth : Nat) : String := String.ofList (List.replicate (2 * depth) ' ')

-- Rows between two brackets, each on a line of its own; nothing between them stays on one line.
def bracketed (open_ close : String) (depth : Nat) (rows : List String) : String :=
  match rows with
  | [] => open_ ++ close
  | _ =>
    open_ ++ "\n" ++ String.intercalate ",\n" (rows.map (margin (depth + 1) ++ ·)) ++ "\n" ++
      margin depth ++ close

mutual

def layout (depth : Nat) : Document → String
  | absent => "null"
  | count n => String.ofList (Decimal.digitsOf n)
  | number x => (Decimal.documented? x).getD "null"
  | text s => quoted s
  | list entries => bracketed "[" "]" depth (layoutList (depth + 1) entries)
  | object fields => bracketed "\x7b" "\x7d" depth (layoutFields (depth + 1) fields)

def layoutList (depth : Nat) : List Document → List String
  | [] => []
  | entry :: rest => layout depth entry :: layoutList depth rest

def layoutFields (depth : Nat) : List (String × Document) → List String
  | [] => []
  | (name, value) :: rest =>
    (quoted name ++ ": " ++ layout depth value) :: layoutFields depth rest

end

-- The document spread over lines, two spaces a level.
def pretty (d : Document) : String := d.layout 0

end Document

end ScopeScript
