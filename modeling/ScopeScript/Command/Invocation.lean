namespace ScopeScript

inductive Task where
  | listTokens (asDocument : Bool)
  | showTree (asDocument : Bool)
  | evaluate
  | run
  deriving DecidableEq, Repr

-- A well-formed command line.
structure Invocation where
  task : Task
  file : Option String
  log : Bool
  deriving DecidableEq, Repr

namespace Invocation

def taskNamed? : String → Option Task
  | "tokenize" => some (.listTokens false)
  | "parse" => some (.showTree false)
  | "evaluate" => some .evaluate
  | "run" => some .run
  | _ => none

-- The same task with its output as a document; not every task has one, and none twice.
def Task.documented? : Task → Option Task
  | .listTokens false => some (.listTokens true)
  | .showTree false => some (.showTree true)
  | _ => none

-- A lone dash is a name like any other.
def isOption (argument : String) : Bool :=
  argument.startsWith "-" && argument != "-"

def withFile? (i : Invocation) (name : String) : Option Invocation :=
  if name.isEmpty || i.file.isSome then none else some { i with file := some name }

-- Arguments behind the task. A double dash ends the options; an option counts once.
def complete? (optionsOpen logged : Bool) (i : Invocation) : List String → Option Invocation
  | [] => some i
  | argument :: rest =>
    if optionsOpen && argument == "--" then complete? false logged i rest
    else if optionsOpen && argument == "--log" then
      if logged then none else complete? true true { i with log := true } rest
    else if optionsOpen && argument == "--json" then
      (Task.documented? i.task).bind fun task => complete? true logged { i with task := task } rest
    else if optionsOpen && isOption argument then none
    else (i.withFile? argument).bind fun i => complete? optionsOpen logged i rest

-- A task comes first, but for one logging option that may stand before it.
def parse? : List String → Option Invocation
  | "--log" :: task :: rest =>
    (taskNamed? task).bind fun task => complete? true false ⟨task, none, true⟩ rest
  | task :: rest => (taskNamed? task).bind fun task => complete? true false ⟨task, none, false⟩ rest
  | [] => none

end Invocation

end ScopeScript
