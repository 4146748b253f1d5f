namespace LetWhile

/-- Settings given before the command; the empty text is none. -/
structure Flags where
  config : String := ""
  logLevel : String := ""
  bindings : String := ""
  deriving DecidableEq, Repr

namespace Flags

inductive Error where
  | undefined (name : String)
  | needsArgument (name : String)
  | badForm (argument : String)
  | help
  deriving DecidableEq, Repr

def Error.message : Error → String
  | .undefined name => s!"flag provided but not defined: -{name}"
  | .needsArgument name => s!"flag needs an argument: -{name}"
  | .badForm argument => s!"bad flag syntax: {argument}"
  | .help => "flag: help requested"

def set? (f : Flags) (name : String) : Option (String → Flags) :=
  match name with
  | "config" => some fun value => { f with config := value }
  | "log-level" => some fun value => { f with logLevel := value }
  | "bindings" => some fun value => { f with bindings := value }
  | _ => none

/-- How an argument reads. -/
inductive Form where
  | plain
  | stop
  | flag (name : String) (value : Option String)
  | bad

/-- One or two dashes start a flag, and `=` behind its name its value. -/
def form (argument : String) : Form :=
  let named (cs : List Char) : Form :=
    match cs with
    | [] => .bad
    | c :: rest =>
      if c = '-' || c = '=' then .bad
      else
        let name := String.ofList (c :: rest.takeWhile (· ≠ '='))
        match rest.dropWhile (· ≠ '=') with
        | [] => .flag name none
        | _ :: value => .flag name (some (String.ofList value))
  match argument.toList with
  | ['-', '-'] => .stop
  | '-' :: '-' :: cs => named cs
  | ['-'] => .plain
  | '-' :: cs => named cs
  | _ => .plain

/-- The flags at the front of the arguments, a later one winning over an earlier, and the arguments
behind them. -/
def parse (f : Flags) : List String → Except Error (Flags × List String)
  | [] => .ok (f, [])
  | argument :: rest =>
    match form argument with
    | .plain => .ok (f, argument :: rest)
    | .stop => .ok (f, rest)
    | .bad => .error (.badForm argument)
    | .flag name value =>
      match f.set? name with
      | none => .error (if name = "help" || name = "h" then .help else .undefined name)
      | some set =>
        match value with
        | some v => (set v).parse rest
        | none =>
          match rest with
          | v :: rest => (set v).parse rest
          | [] => .error (.needsArgument name)

end Flags

end LetWhile
