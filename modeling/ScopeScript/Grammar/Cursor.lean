import ScopeScript.Grammar.Tree
import ScopeScript.Grammar.Fault

namespace ScopeScript

-- A reader's progress: the tokens ahead, none of them the end, and the end token behind them.
structure Cursor where
  ahead : List Token
  stop : Token
  -- The id for the next reference.
  next : RefId
  -- Faults so far, in the order of discovery.
  faults : List SyntaxFault

namespace Cursor

-- Nothing behind the first end token counts. Tokens without one end where the last one stands.
def ofTokens (tokens : List Token) (next : RefId) : Cursor :=
  let place := match tokens.getLast? with
    | some t => t.position
    | none => .start
  ⟨tokens.takeWhile (!·.isStop), (tokens.find? (·.isStop)).getD ⟨.stop, "", place⟩, next, []⟩

def peek (c : Cursor) : Token := c.ahead.headD c.stop

def atEnd (c : Cursor) : Bool := c.ahead.isEmpty

def sees (c : Cursor) (test : Token → Bool) : Bool := c.ahead.head?.any test

def report (c : Cursor) (f : SyntaxFault) : Cursor := { c with faults := c.faults ++ [f] }

-- Words with which a statement may start again after a fault.
def restarts : List Keyword :=
  [.classWord, .funWord, .varWord, .forWord, .ifWord, .whileWord, .printWord, .returnWord,
    .breakWord]

-- Drops tokens until the last one dropped is a semicolon or the next one starts a statement.
def skip : Token → List Token → List Token
  | _, [] => []
  | last, t :: rest =>
    if last.isMark .semicolon || restarts.any t.isKeyword then t :: rest else skip t rest

-- The token at fault is dropped in any case.
def recover (c : Cursor) : Cursor :=
  match c.ahead with
  | [] => c
  | t :: rest => { c with ahead := skip t rest }

theorem skip_length (last : Token) (rest : List Token) :
    (skip last rest).length ≤ rest.length := by
  induction rest generalizing last with
  | nil => exact Nat.le_refl _
  | cons t rest ih =>
    unfold skip
    split
    · exact Nat.le_refl _
    · exact Nat.le_succ_of_le (ih t)

theorem recover_shorter (c : Cursor) (more : c.ahead ≠ []) :
    c.recover.ahead.length < c.ahead.length := by
  unfold recover
  split
  · contradiction
  · rename_i t rest h
    rw [h]
    exact Nat.lt_succ_of_le (skip_length t rest)

end Cursor

-- Reading either succeeds or stops at a fault; both keep the cursor reached.
abbrev Reading := EStateM SyntaxFault Cursor

namespace Reading

def fail (cause : SyntaxCause) : Reading α := fun c => .error ⟨cause, c.peek⟩ c

-- Notes a fault that does not stop the reading.
def complain (cause : SyntaxCause) (t : Token) : Reading Unit :=
  fun c => .ok () (c.report ⟨cause, t⟩)

def look : Reading Token := fun c => .ok c.peek c

def atEnd : Reading Bool := fun c => .ok c.atEnd c

def sees (test : Token → Bool) : Reading Bool := fun c => .ok (c.sees test) c

-- A function keyword with a name right behind it.
def declaresFunction : Reading Bool := fun c =>
  match c.ahead with
  | t :: name :: _ => .ok (t.isKeyword .funWord && name.isIdentifier) c
  | _ => .ok false c

-- Takes the next token if it passes the test.
def accept? (test : Token → Bool) : Reading (Option Token) := fun c =>
  match c.ahead with
  | [] => .ok none c
  | t :: rest => if test t then .ok (some t) { c with ahead := rest } else .ok none c

def acceptMark (m : Mark) : Reading Bool := do
  return (← accept? (·.isMark m)).isSome

def acceptKeyword (k : Keyword) : Reading Bool := do
  return (← accept? (·.isKeyword k)).isSome

def expectMark (m : Mark) (slot : Slot) : Reading Token := do
  match ← accept? (·.isMark m) with
  | some t => return t
  | none => fail (.missingMark m slot)

def expectName (what : Named) : Reading Token := do
  match ← accept? Token.isIdentifier with
  | some t => return t
  | none => fail (.missingName what)

def fresh : Reading RefId := fun c => .ok c.next { c with next := c.next + 1 }

-- A fault inside is noted, and reading goes on behind it without a result.
def recovering (inner : Reading α) : Reading (Option α) := fun c =>
  match inner c with
  | .ok value after => .ok (some value) after
  | .error fault after => .ok none (after.report fault).recover

end Reading

end ScopeScript
