import LetWhile.Linked
import LetWhile.Session

/-! The program that a shell starts. -/
namespace LetWhile.Main

/-- The code of the error that reading a directory gives. -/
def readsDirectory : UInt32 := 21

/-- What is at a path. -/
def openFile (path : String) : IO (Except OpenError File) := do
  match ← (IO.FS.readBinFile path).toBaseIO with
  | .ok bytes => return .ok (.content bytes.toList)
  | .error (.inappropriateType _ code _) =>
    return if code = readsDirectory then .ok .directory else .error .notDirectory
  | .error _ => return .error .missing

/-- Every path that a command line may ask for. -/
def paths (args : List String) : List String :=
  let values := args.map fun a => String.ofList ((a.toList.dropWhile (· ≠ '=')).drop 1)
  Command.defaultConfig :: args ++ values

def openAll (args : List String) : IO Files := do
  let opened ← (paths args).mapM fun path => return (path, ← openFile path)
  return fun path => (opened.lookup path).getD (.error .missing)

partial def converse (env : Env) : IO Unit := do
  IO.print "> "
  (← IO.getStdout).flush
  let line ← (← IO.getStdin).getLine
  if line.isEmpty then return
  let s := Session.step enoughFuel { env } line
  for x in s.shown do
    IO.print x.text
  converse s.env

def fail (message : String) : IO UInt32 := do
  IO.eprintln s!"error: {message}"
  return 1

def start (args : List String) : IO UInt32 := do
  let files ← openAll args
  match Command.Setup.ofArgs Libraries.linked.reader files args with
  | .error refusal =>
    IO.eprint refusal.notice
    fail refusal.message
  | .ok setup =>
    if setup.action = .session then
      converse .root
      return 0
    let report := setup.perform .linked enoughFuel files {}
    IO.print report.out.text
    IO.eprint (logText setup.level report.records)
    match report.error with
    | some message => fail message
    | none => return 0

end LetWhile.Main

def main (args : List String) : IO UInt32 := LetWhile.Main.start args
