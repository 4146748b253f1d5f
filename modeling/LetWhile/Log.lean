import LetWhile.Run
import LetWhile.SyntaxError
import LetWhile.Text.Quoted

namespace LetWhile

inductive Level where
  | debug | info | warn | error
  deriving DecidableEq, Repr

namespace Level

def name : Level → String
  | .debug => "DEBUG"
  | .info => "INFO"
  | .warn => "WARN"
  | .error => "ERROR"

def ofName? : String → Option Level
  | "debug" => some .debug
  | "info" => some .info
  | "warn" => some .warn
  | "error" => some .error
  | _ => none

end Level

/-- What is told about a run while it goes on. Everything told is for debugging. -/
structure Record where
  message : String
  fields : List (String × String)
  deriving DecidableEq, Repr

namespace Record

def parsed (file : String) (program : Block) : Record :=
  ⟨"parsed", [("file", file), ("statements", toString program.length)]⟩

def parseFailed (file : String) (errors : List SyntaxError) : Record :=
  ⟨"parse failed", [("file", file), ("error", SyntaxError.texts errors)]⟩

/-- Printing is not told. -/
def ofEvent? : Event → Option Record
  | .declared name v => some ⟨"declare", [("name", name), ("value", v.text)]⟩
  | .branched taken =>
    some ⟨"enter block",
      [("statement", Construct.branch.keyword), ("branch", (Value.bool taken).text)]⟩
  | .looped => some ⟨"enter block", [("statement", Construct.loop.keyword)]⟩
  | .printed _ => none
  | .returned statement v =>
    some ⟨"program returned", [("statement", toString statement), ("value", v.text)]⟩

def text (r : Record) : String :=
  let fields := ("level", Level.debug.name) :: ("msg", r.message) :: r.fields
  " ".intercalate (fields.map fun (key, value) => s!"{key}={Text.quoteIfNeeded value}") ++ "\n"

end Record

/-- What a run tells. -/
def State.records (s : State) : List Record := s.events.filterMap Record.ofEvent?

/-- The lines of a log; only the level for debugging lets records through. -/
def logText (level : Level) (records : List Record) : String :=
  if level = .debug then String.join (records.map Record.text) else ""

end LetWhile
