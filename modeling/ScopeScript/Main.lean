import ScopeScript.Command.Perform

open ScopeScript

-- More than any run that ends in reasonable time needs.
def runFuel : Nat := Nat.pow 10 15

def usage : String :=
  "Usage: scopescript [--log] <tokenize|parse|evaluate|run> [--json] [FILE]\n"

def readContents (name : String) : IO (Except FileFault ByteArray) := do
  try
    return .ok (← IO.FS.readBinFile name)
  catch
    | .noFileOrDirectory .. => return .error .missing
    | .inappropriateType _ code _ =>
      return .error (if code == 20 then .notFolder else .isFolder)
    | .permissionDenied .. => return .error .denied
    | _ => return .error .missing

def main (arguments : List String) : IO UInt32 := do
  match Invocation.parse? arguments with
  | none =>
    IO.eprint usage
    return usageStatus.toUInt32
  | some invocation =>
    if invocation.log then IO.FS.writeFile "app.log" ""
    let contents ← match invocation.file with
      | some name => readContents name
      | none => pure (.error .missing)
    let finished := invocation.perform runFuel (← IO.monoMsNow) fun _ => contents
    IO.print finished.out
    IO.eprint finished.err
    return finished.status.toUInt32
