import LetWhile.Code.Lower
import LetWhile.Config
import LetWhile.Flags
import LetWhile.Program.Parse

/-! The command line: flags, a command and its files. -/
namespace LetWhile

/-- What commands take from outside: how settings are read, how bindings are encoded, and the text
of a module with the code of a program. -/
structure Libraries where
  reader : RecordReader
  encoder : Encoder
  listing : Code.Function → String

namespace Command

def defaultConfig : String := "stride.yaml"

def usage : String :=
  "usage: stride [flags] <command> [args]\n" ++
  "\n" ++
  "commands:\n" ++
  "  run FILE         interpret FILE and print its top level bindings\n" ++
  "  ir FILE          print the LLVM IR for FILE\n" ++
  "  check FILE...    report syntax errors in every FILE\n" ++
  "  repl             start an interactive session\n" ++
  "\n" ++
  "flags:\n" ++
  "  -bindings string\n    \tHow run prints the final bindings (none, text, yaml)\n" ++
  s!"  -config string\n    \tConfig file (default ./{defaultConfig} if present)\n" ++
  "  -log-level string\n    \tLog level (debug, info, warn, error)\n"

/-- What is asked for. -/
inductive Action where
  | run (file : String)
  | code (file : String)
  | check (files : List String)
  | session
  deriving DecidableEq, Repr

/-- Why nothing is done, and what is said about it besides. A defect is no fault that the command
line can have. -/
structure Refusal where
  message : String
  notice : String := ""
  isDefect : Bool := false
  deriving DecidableEq, Repr

def Action.ofArgs : List String → Except Refusal Action
  | [] => .error { message := "missing command", notice := usage }
  | "run" :: [file] => .ok (.run file)
  | "run" :: _ => .error { message := "run takes exactly one file" }
  | "ir" :: [file] => .ok (.code file)
  | "ir" :: _ => .error { message := "ir takes exactly one file" }
  | ["check"] => .error { message := "check takes at least one file" }
  | "check" :: files => .ok (.check files)
  | "repl" :: _ => .ok .session
  | command :: _ => .error { message := s!"unknown command: {command}", notice := usage }

structure Setup where
  level : Level
  format : BindingsFormat
  historyFile : String
  action : Action

/-- Flags win over the settings file, which is read and checked first. -/
def Setup.ofArgs (reader : RecordReader) (files : Files) (args : List String) :
    Except Refusal Setup :=
  match ({} : Flags).parse args with
  | .error .help => .error { message := Flags.Error.help.message, notice := usage }
  | .error e => .error { message := e.message, notice := s!"{e.message}\n{usage}" }
  | .ok (flags, rest) =>
    let asked := flags.config ≠ ""
    match Config.load reader files (if asked then flags.config else defaultConfig) asked with
    | .error e => .error { message := e.message, isDefect := e.isDefect }
    | .ok loaded =>
      let config := { loaded with
        logLevel := if flags.logLevel = "" then loaded.logLevel else flags.logLevel
        bindings := if flags.bindings = "" then loaded.bindings else flags.bindings }
      match config.check with
      | .error e => .error { message := e.message }
      | .ok (level, format) =>
        match Action.ofArgs rest with
        | .error refusal => .error refusal
        | .ok action => .ok ⟨level, format, config.historyFile, action⟩

/-- What a command leaves: its output, its log, and why it failed, if it did. -/
structure Report where
  out : Sink String
  records : List Record := []
  error : Option String := none

/-- The text of a file. Reading a directory fails at once. -/
def source (file : String) : File → Source
  | .content bytes => .ofBytes file bytes false
  | .directory => ⟨file, [], true⟩

/-- The program in a file, and what is told about parsing it. -/
def load (files : Files) (file : String) : Except String Block × List Record :=
  match files file with
  | .error e => (.error s!"open source: {e.message file}", [])
  | .ok content =>
    match (Parsed.ofSource (source file content)).program with
    | .error errors => (.error (SyntaxError.texts errors), [.parseFailed file errors])
    | .ok program => (.ok program, [.parsed file program])

def runFile (encoder : Encoder) (fuel : Nat) (files : Files) (file : String)
    (format : BindingsFormat) (out : Sink String) : Report :=
  match load files file with
  | (.error message, records) => { out, records, error := some message }
  | (.ok program, records) =>
    let (outcome, s) := Block.run fuel program { env := .root, room := out.room }
    let out : Sink String := ⟨s.room, (s.lines.map (· ++ "\n")).reverse ++ out.written⟩
    let records := records ++ s.records
    match outcome with
    | .outOfFuel => { out, records, error := some s!"{file}: out of fuel" }
    | .failed .. =>
      { out, records, error := outcome.message?.map fun message => s!"{file}: {message}" }
    | .finished | .returned _ =>
      let out := match outcome.returned? with
        | some v => out.offer s!"returned {v.text}\n"
        | none => out
      match s.env.own.display encoder format out with
      | (.ok (), out) => { out, records }
      | (.error message, out) => { out, records, error := some message }

def codeFile (listing : Code.Function → String) (files : Files) (file : String) (out : Sink String) :
    Report :=
  match load files file with
  | (.error message, records) => { out, records, error := some message }
  | (.ok program, records) =>
    match Code.lower program with
    | .error e => { out, records, error := some e.message }
    | .ok code =>
      match out.write (listing code) with
      | (true, out) => { out, records }
      | (false, out) => { out, records, error := some Failure.writeFailed.message }

/-- One line for each file. -/
def checkLine (file : String) : Except String Block → String
  | .ok _ => s!"{file}: ok\n"
  | .error message => message ++ "\n"

/-- Reports on files one after the other, and counts those with errors. -/
def checkEach (files : Files) : List String → Sink String → Nat × Sink String × List Record
  | [], out => (0, out, [])
  | file :: rest, out =>
    let (result, records) := load files file
    let (failed, out, more) := checkEach files rest (out.offer (checkLine file result))
    ((if result.isOk then failed else failed + 1), out, records ++ more)

def checkFiles (files : Files) (names : List String) (out : Sink String) : Report :=
  let (failed, out, records) := checkEach files names out
  { out, records
    error := if failed = 0 then none else some s!"{failed} of {names.length} files have errors" }

/-- A session has its own reader and does nothing here. -/
def Setup.perform (lib : Libraries) (fuel : Nat) (files : Files) (setup : Setup) (out : Sink String) :
    Report :=
  match setup.action with
  | .run file => runFile lib.encoder fuel files file setup.format out
  | .code file => codeFile lib.listing files file out
  | .check names => checkFiles files names out
  | .session => { out }

/-- The two outputs of a command and its error, or the defect that it breaks off with. -/
structure Answer where
  stdout : String
  stderr : String
  error : Option String
  isDefect : Bool := false

def run (lib : Libraries) (fuel : Nat) (files : Files) (args : List String) (out : Sink String) :
    Answer :=
  match Setup.ofArgs lib.reader files args with
  | .error refusal =>
    { stdout := out.text, stderr := refusal.notice, error := some refusal.message,
      isDefect := refusal.isDefect }
  | .ok setup =>
    let report := setup.perform lib fuel files out
    { stdout := report.out.text, stderr := logText setup.level report.records, error := report.error }

end Command

end LetWhile
