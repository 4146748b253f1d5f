import LetWhile.Bindings
import LetWhile.Files
import LetWhile.Log

namespace LetWhile

/-- Settings as they are given, known words or not. -/
structure Config where
  logLevel : String := "warn"
  bindings : String := "text"
  historyFile : String := ""
  deriving DecidableEq, Repr

inductive ConfigError where
  | unknownLevel (word : String)
  | unknownFormat (word : String)
  deriving DecidableEq, Repr

def ConfigError.message : ConfigError → String
  | .unknownLevel word => s!"unknown log level: {word}"
  | .unknownFormat word => s!"unknown bindings format: {word}"

/-- Why bytes could not be read. A defect is no fault of theirs: the reader breaks off. -/
structure ReadError where
  message : String
  isDefect : Bool := false
  deriving DecidableEq, Repr

/-- A reader of records, from outside: the texts that some bytes give for the fields of a record,
which has a name. A later text for a field replaces an earlier one. -/
abbrev RecordReader :=
  (name : String) → (fields : List String) → List UInt8 → Except ReadError (List (String × String))

/-- Why a file gives no settings. -/
inductive LoadError where
  | unopened (path : String) (error : OpenError)
  | directory (path : String)
  | unread (path : String) (error : ReadError)
  | refused (path : String) (error : ConfigError)
  deriving DecidableEq, Repr

namespace LoadError

def isDefect : LoadError → Bool
  | .unread _ e => e.isDefect
  | _ => false

/-- A defect of the reader is told as it is. -/
def message : LoadError → String
  | .unopened path e => s!"read config: {e.message path}"
  | .directory path => s!"read config: read {path}: is a directory"
  | .unread path e => if e.isDefect then e.message else s!"parse config {path}: {e.message}"
  | .refused path e => s!"config {path}: {e.message}"

end LoadError

namespace Config

/-- The meaning of the settings. -/
def check (c : Config) : Except ConfigError (Level × BindingsFormat) :=
  match Level.ofName? c.logLevel, BindingsFormat.ofName? c.bindings with
  | none, _ => .error (.unknownLevel c.logLevel)
  | some _, none => .error (.unknownFormat c.bindings)
  | some level, some format => .ok (level, format)

/-- The settings by the names that files give them. -/
def fields : List (String × (String → Config → Config)) := [
  ("log_level", fun text c => { c with logLevel := text }),
  ("bindings", fun text c => { c with bindings := text }),
  ("history_file", fun text c => { c with historyFile := text })]

/-- Sets one setting; other names are passed over. -/
def set (c : Config) (name text : String) : Config :=
  match fields.lookup name with
  | some put => put text c
  | none => c

/-- Settings from bytes; what they do not set has its usual value. -/
def parse (reader : RecordReader) (bytes : List UInt8) : Except ReadError Config := do
  let texts ← reader "main.Config" (fields.map (·.1)) bytes
  return texts.foldl (fun c (name, text) => c.set name text) {}

/-- Settings from a file. A file that is not there is an error only if it was asked for. -/
def load (reader : RecordReader) (files : Files) (path : String) (asked : Bool) :
    Except LoadError Config :=
  match files path with
  | .error e => if e = .missing && !asked then .ok {} else .error (.unopened path e)
  | .ok .directory => .error (.directory path)
  | .ok (.content bytes) =>
    match parse reader bytes with
    | .error e => .error (.unread path e)
    | .ok c =>
      match c.check with
      | .ok _ => .ok c
      | .error e => .error (.refused path e)

end Config

end LetWhile
