import Std.Data.TreeMap
import ScopeScript.Grammar.Tree

namespace ScopeScript

-- How many scopes out each local reference finds its name; global references have no entry.
abbrev Depths := Std.TreeMap RefId Nat

-- What one look at a reference found: a depth, or nothing for a global.
structure Note where
  id : RefId
  depth : Option Nat
  deriving DecidableEq, Repr

def Depths.noted (depths : Depths) (note : Note) : Depths :=
  match note.depth with
  | some depth => depths.insert note.id depth
  | none => depths.erase note.id

-- A later note on the same reference wins.
def Depths.record (depths : Depths) (notes : List Note) : Depths :=
  notes.foldl Depths.noted depths

end ScopeScript
