namespace ScopeScript

-- Why a file gives no bytes.
inductive FileFault where
  | missing
  | notFolder
  | isFolder
  | denied
  deriving DecidableEq, Repr

-- Files and folders by their paths from one place, the parts apart by slashes.
structure Folder where
  files : List (String × ByteArray)
  folders : List String

namespace Folder

inductive Entry where
  | file (bytes : ByteArray)
  | folder

def parts (path : String) : List String := (path.splitOn "/").filter fun part => !part.isEmpty

def entry? (f : Folder) (path : List String) : Option Entry :=
  match f.files.find? fun row => parts row.1 == path with
  | some row => some (.file row.2)
  | none =>
    let known := f.files.map (parts ·.1) ++ f.folders.map parts
    if path.isEmpty || known.any path.isPrefixOf then some .folder else none

-- Follows parts of a path from an entry on. Nothing outside the folder is known.
def follow (f : Folder) (path : List String) : List String → Except FileFault ByteArray
  | [] =>
    match f.entry? path with
    | some (.file bytes) => .ok bytes
    | some .folder => .error .isFolder
    | none => .error .missing
  | part :: rest =>
    match f.entry? path with
    | some .folder =>
      if part = "" ∨ part = "." then f.follow path rest
      else if part = ".." then
        if path.isEmpty then .error .missing else f.follow path.dropLast rest
      else f.follow (path ++ [part]) rest
    | some (.file _) => .error .notFolder
    | none => .error .missing

def read (f : Folder) (name : String) : Except FileFault ByteArray :=
  if name.startsWith "/" then .error .missing else f.follow [] (name.splitOn "/")

def holds (f : Folder) (name : String) : Bool := (f.entry? [name]).isSome

end Folder

end ScopeScript
