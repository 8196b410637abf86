import ScopeScript.Problem
import ScopeScript.Grammar.Read
import ScopeScript.Scoping.Resolve
import ScopeScript.Running.Evaluate

namespace ScopeScript

-- What a request comes to: a result, the problems that prevented one, or fuel that ran out.
inductive Reply (α : Type) where
  | done (result : α)
  | rejected (problems : List Problem)
  | unfinished
  deriving DecidableEq

-- A machine together with the id for the next reference. Ids never come back, so trees of
-- several sources share one table of depths.
structure Session where
  machine : Machine
  nextRef : RefId

-- A request changes the session and gives a reply.
abbrev Request (α : Type) := Session → Reply α × Session

namespace Request

def reply (result : α) : Request α := fun s => (.done result, s)

def reject (problems : List Problem) : Request α := fun s => (.rejected problems, s)

-- The second request sees the first one's result, and only a result.
def andThen (first : Request α) (second : α → Request β) : Request β := fun s =>
  match first s with
  | (.done result, s) => second result s
  | (.rejected problems, s) => (.rejected problems, s)
  | (.unfinished, s) => (.unfinished, s)

def ofExcept (wrap : ε → Problem) : Except (List ε) α → Request α
  | .ok result => reply result
  | .error faults => reject (faults.map wrap)

-- Lets a reader of tokens hand out ids from the session's counter.
def reading (reader : List Token → RefId → Except (List SyntaxFault) α × RefId)
    (tokens : List Token) : Request α := fun s =>
  let (result, next) := reader tokens s.nextRef
  ofExcept .syntactic result { s with nextRef := next }

def scanning (source : String) : Request (List Token) :=
  ofExcept .lexical (tokens source)

-- Runs on the session's machine.
def running (action : Running α) : Request α := fun s =>
  match action s.machine with
  | .ok result machine => (.done result, { s with machine := machine })
  | .error (.fault f) machine => (.rejected [.runtime f], { s with machine := machine })
  | .error .outOfFuel machine => (.unfinished, { s with machine := machine })

-- Notes are kept even when the resolution found faults.
def noting (resolution : Resolution) : Request Resolution := fun s =>
  (.done resolution,
    { s with machine := { s.machine with depths := s.machine.depths.record resolution.notes } })

-- Warnings count only where there are no faults.
def accepting (resolution : Resolution) : Request (List Warning) :=
  match resolution.faults with
  | [] => reply resolution.warnings
  | faults => reject (faults.map .static)

end Request

namespace Session

open Request

def start (sink : Sink) (clock : Nat) : Session := ⟨.start sink clock, 0⟩

def parse (source : String) : Request (List Stmt) :=
  (scanning source).andThen (reading readProgram)

def parseExpression (source : String) : Request Expr :=
  (scanning source).andThen (reading readExpression)

def resolve (program : List Stmt) : Request (List Warning) :=
  (noting (resolveProgram program)).andThen accepting

def carryOut (fuel : Nat) (program : List Stmt) : Request Unit :=
  running (runProgram fuel program)

def evaluateExpression (fuel : Nat) (e : Expr) : Request Value :=
  running (e.evaluate fuel)

-- Reads, resolves and runs a program. No later step begins before the earlier ones succeed.
def run (fuel : Nat) (source : String) : Request (List Warning) :=
  (parse source).andThen fun program =>
    (resolve program).andThen fun warnings =>
      (carryOut fuel program).andThen fun _ => reply warnings

-- Reads, resolves and evaluates a single expression, without flushing.
def evaluate (fuel : Nat) (source : String) : Request Value :=
  (parseExpression source).andThen fun e =>
    (noting (resolveExpression e)).andThen fun resolution =>
      (accepting resolution).andThen fun _ => evaluateExpression fuel e

end Session

end ScopeScript
