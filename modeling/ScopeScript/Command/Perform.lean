import ScopeScript.Session
import ScopeScript.Excerpt.Report
import ScopeScript.Text.Utf8
import ScopeScript.Text.Quoted
import ScopeScript.Lexis.Record
import ScopeScript.Grammar.Outline
import ScopeScript.Grammar.Record
import ScopeScript.Command.Invocation
import ScopeScript.Command.Folder

namespace ScopeScript

-- What a command leaves behind: its status and the text on both of its channels.
structure Finished where
  status : Nat
  out : String
  err : String
  deriving DecidableEq, Repr

def usageStatus : Nat := 2

def fileStatus : Nat := 74

def Problem.report (source : String) (p : Problem) : String :=
  Excerpt.report source .error p.position.line p.position.column p.text

def Warning.report (source : String) (w : Warning) : String :=
  Excerpt.report source .warning w.token.position.line w.token.position.column w.text

def Sink.text (s : Sink) : String := Text.decodeAny s.written

def FileFault.message (name : String) : FileFault → String
  | missing => "Failed to open file " ++ Text.quoted name ++ ": No such file or directory (os error 2)"
  | notFolder => "Failed to open file " ++ Text.quoted name ++ ": Not a directory (os error 20)"
  | denied => "Failed to open file " ++ Text.quoted name ++ ": Permission denied (os error 13)"
  | isFolder => "Failed to read file " ++ Text.quoted name ++ ": Is a directory (os error 21)"

def Text.Utf8Fault.report (name : String) (f : Text.Utf8Fault) : String :=
  "File " ++ Text.quoted name ++ " is not valid UTF-8: " ++ f.message

namespace Finished

def success (out : String) : Finished := ⟨0, out, ""⟩

-- The first problem decides the status, and each is reported.
def failed (source : String) (problems : List Problem) : Finished :=
  ⟨(problems.head?.map Problem.exitStatus).getD 65, "",
    String.join (problems.map (Problem.report source))⟩

def outOfFuel : Finished := ⟨70, "", "Out of fuel\n"⟩

-- What was printed and reported before.
def after (out err : String) (f : Finished) : Finished :=
  { f with out := out ++ f.out, err := err ++ f.err }

end Finished

-- One of the two forms of some output, on a line of its own.
def shown (asDocument : Bool) (document : Document) (text : String) : String :=
  (if asDocument then document.pretty else text) ++ "\n"

def tokenListing (found : List Token) : String :=
  String.intercalate "\n" (found.map Token.listing)

def Reply.finish (source : String) (show_ : α → Finished) : Reply α → Finished
  | .done result => show_ result
  | .rejected problems => .failed source problems
  | .unfinished => .outOfFuel

-- A task on the text of its file. Warnings of a program come before it runs.
def Task.perform (fuel : Nat) (clock : Nat) (source : String) (task : Task) : Finished :=
  let session := Session.start .unlimited clock
  match task with
  | .listTokens asDocument =>
    (Request.scanning source session).1.finish source fun found =>
      .success (shown asDocument (.list (found.map Token.document)) (tokenListing found))
  | .showTree asDocument =>
    (Session.parse source session).1.finish source fun program =>
      .success (shown asDocument (.list (Stmt.documents program)) (outlineProgram program))
  | .evaluate =>
    let (reply, session) := Session.evaluate fuel source session
    (reply.finish source fun value => .success (value.text ++ "\n")).after
      session.machine.sink.text ""
  | .run =>
    let (reply, session) :=
      (Session.parse source).andThen (fun program =>
        (Session.resolve program).andThen fun warnings => Request.reply (program, warnings)) session
    reply.finish source fun (program, warnings) =>
      let (reply, session) := Session.carryOut fuel program session
      (reply.finish source fun _ => .success "").after session.machine.sink.text
        (String.join (warnings.map (Warning.report source)))

-- A command on the contents of its file. Without a file there is nothing to do.
def Invocation.perform (fuel : Nat) (clock : Nat) (i : Invocation)
    (read : String → Except FileFault ByteArray) : Finished :=
  match i.file with
  | none => .success "No input filepath was provided. Exiting...\n"
  | some name =>
    match read name with
    | .error f => ⟨fileStatus, "", f.message name ++ "\n"⟩
    | .ok bytes =>
      match Text.decode bytes with
      | .error f => ⟨fileStatus, "", f.report name ++ "\n"⟩
      | .ok source => i.task.perform fuel clock source

end ScopeScript
