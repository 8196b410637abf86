import ScopeScript.Names
import ScopeScript.Grammar.Tree
import ScopeScript.Scoping.Finding
import ScopeScript.Scoping.Depths

namespace ScopeScript

-- A name in a local scope. The receiver has no declaring token.
structure Declared where
  defined : Bool
  used : Bool
  token : Option Token
  deriving DecidableEq

-- The nearest routine around a statement.
inductive BodyKind where
  | outside | function | lambda | method | initializer
  deriving DecidableEq, Repr

-- The state of a walk over a program. Scopes stand innermost first; no scope means global.
structure Walk where
  scopes : List (Names Declared)
  body : BodyKind
  inClass : Bool
  -- Loops around the statement within its routine.
  loops : Nat
  faults : Array StaticFault
  warnings : Array Warning
  notes : Array Note

namespace Walk

def start : Walk := ⟨[], .outside, false, 0, #[], #[], #[]⟩

def fault (w : Walk) (cause : StaticCause) (token : Token) : Walk :=
  { w with faults := w.faults.push ⟨cause, token⟩ }

def warn (w : Walk) (cause : WarningCause) (token : Token) : Walk :=
  { w with warnings := w.warnings.push ⟨cause, token⟩ }

def note (w : Walk) (id : RefId) (depth : Option Nat) : Walk :=
  { w with notes := w.notes.push ⟨id, depth⟩ }

def enter (w : Walk) (names : Names Declared) : Walk :=
  { w with scopes := names :: w.scopes }

-- The declaring tokens that nothing refers to, in reading order.
def unused (names : Names Declared) : List Token :=
  let tokens := names.filterMap fun row => if row.2.used then none else row.2.token
  tokens.mergeSort fun a b => a.position.before b.position

def leave (w : Walk) : Walk :=
  match w.scopes with
  | [] => w
  | names :: outer =>
    (unused names).foldl (fun w token => w.warn .unusedVariable token) { w with scopes := outer }

-- A second declaration in a scope replaces the first one and is a fault.
def declare (w : Walk) (name : Token) : Walk :=
  match w.scopes with
  | [] => w
  | names :: outer =>
    let w' := { w with scopes := names.put name.lexeme ⟨false, false, some name⟩ :: outer }
    if names.binds name.lexeme then w'.fault .duplicateDeclaration name else w'

-- The declared name has its value from here on.
def settle (w : Walk) (name : Token) : Walk :=
  match w.scopes with
  | [] => w
  | names :: outer =>
    match names.get? name.lexeme with
    | none => w
    | some entry => { w with scopes := names.put name.lexeme { entry with defined := true } :: outer }

-- A name that can be read at once.
def introduce (w : Walk) (name : Token) : Walk := (w.declare name).settle name

-- Only the innermost scope can hold a name that is still being initialized.
def initializing (w : Walk) (name : String) : Bool :=
  match w.scopes with
  | [] => false
  | names :: _ => (names.get? name).any fun entry => !entry.defined

-- The innermost scope with the name, marked as used there, and how far out it is.
def findFrom (name : String) : Nat → List (Names Declared) →
    Option (Nat × List (Names Declared))
  | _, [] => none
  | depth, names :: outer =>
    match names.get? name with
    | some entry => some (depth, names.put name { entry with used := true } :: outer)
    | none => (findFrom name (depth + 1) outer).map fun found => (found.1, names :: found.2)

def refer (w : Walk) (id : RefId) (name : Token) : Walk :=
  match findFrom name.lexeme 0 w.scopes with
  | some (depth, scopes) => { w with scopes := scopes }.note id (some depth)
  | none => w.note id none

-- A statement behind a return in the same list never runs.
def flagUnreachable (w : Walk) : List Stmt → Walk
  | .giveBack keyword _ :: next :: rest =>
    flagUnreachable (w.warn .unreachableCode keyword) (next :: rest)
  | _ :: rest => flagUnreachable w rest
  | [] => w

-- Loops outside a routine do not count inside it.
def enterRoutine (w : Walk) (kind : BodyKind) (parameters : List Token) : Walk :=
  parameters.foldl introduce ({ w with body := kind, loops := 0 }.enter [])

-- Back to the routine and the loops around.
def leaveRoutine (w : Walk) (kind : BodyKind) (loops : Nat) : Walk :=
  { w.leave with body := kind, loops := loops }

end Walk

end ScopeScript
