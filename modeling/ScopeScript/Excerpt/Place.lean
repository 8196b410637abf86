namespace ScopeScript.Excerpt

-- The lines of a source, each with its line feed. Text behind the last line feed is a line too.
def lines : List Char → List (List Char)
  | [] => []
  | c :: rest =>
    if c = '\n' then [c] :: lines rest
    else
      match lines rest with
      | [] => [[c]]
      | line :: more => (c :: line) :: more

-- A line's length without the line feed and carriage returns at its end.
def lineWidth (line : List Char) : Nat :=
  (line.reverse.dropWhile fun c => c == '\n' || c == '\r').length

-- The character offset of a place, no further than the end of its line. A line feed at the very
-- end of the source opens one more, empty line.
def offset? (source : List Char) (line column : Nat) : Option Nat :=
  if source.isEmpty || line == 0 then none
  else
    match (lines source)[line - 1]? with
    | some text =>
      some ((((lines source).take (line - 1)).flatten).length + min (column - 1) (lineWidth text))
    | none =>
      if line = (lines source).length + 1 ∧ source.getLast? = some '\n' then some source.length
      else none

-- The span of one character at a place, empty at the end of the source.
def span? (source : List Char) (line column : Nat) : Option (Nat × Nat) :=
  (offset? source line column).map fun offset =>
    if offset < source.length then (offset, offset + 1) else (source.length, source.length)

end ScopeScript.Excerpt
