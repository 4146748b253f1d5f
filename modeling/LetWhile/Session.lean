import LetWhile.Program.Parse
import LetWhile.Run
import LetWhile.Sink
import LetWhile.Text.Space

/-!
An interactive session. Every line is a program of its own, run on bindings that live as long as the
session. A line that is one bare expression shows its value. All that a session shows goes to the
output of its programs; only a program asks whether it was taken.
-/
namespace LetWhile

/-- What the reader of a session delivers; after the last of them, the end. -/
inductive Input where
  | line (text : String)
  | interrupt
  | failure (message : String)
  deriving DecidableEq, Repr

/-- One write of a session. -/
inductive Shown where
  | printed (value : Value)
  | echoed (value : Value)
  | returned (value : Value)
  | failed (message : String)
  | rejected (errors : List SyntaxError)

def Shown.text : Shown → String
  | .printed v | .echoed v => v.text ++ "\n"
  | .returned v => s!"returned {v.text}\n"
  | .failed message => s!"error: {message}\n"
  | .rejected errors => SyntaxError.texts errors ++ "\n"

/-- What is said of a bare expression. -/
def Shown.ofResult : Except Failure Value → Shown
  | .ok v => .echoed v
  | .error failure => .failed failure.message

/-- What is said of a program behind its run. -/
def Shown.ofOutcome? : Outcome → Option Shown
  | .returned v => some (.returned v)
  | outcome => outcome.message?.map .failed

/-- What lasts from line to line. -/
structure Session where
  env : Env := .root
  out : Sink Shown := {}

namespace Session

def sourceName : String := "<repl>"

def parse (line : String) : Except (List SyntaxError) Block :=
  (Parsed.ofSource { file := sourceName, chars := line.toList }).program

/-- All that was shown, in order. -/
def shown (s : Session) : List Shown := s.out.contents

def tell (s : Session) (x : Shown) : Session := { s with out := s.out.offer x }

/-- What a run has printed. -/
def printed (s : State) : List Shown := s.events.filterMap fun
  | .printed v => some (.printed v)
  | _ => none

/-- The session behind a run, of which the outcome is told. -/
def conclude (s : Session) : Outcome × State → Session
  | (outcome, t) =>
    let behind : Session := ⟨t.env, ⟨t.room, (printed t).reverse ++ s.out.written⟩⟩
    (Shown.ofOutcome? outcome).elim behind behind.tell

/-- Runs a program on the bindings of the session. -/
def exec (fuel : Nat) (s : Session) (program : Block) : Session :=
  match program with
  | [.eval e] => s.tell (.ofResult (e.eval s.env))
  | _ => s.conclude (Block.run fuel program { env := s.env, room := s.out.room })

def step (fuel : Nat) (s : Session) (line : String) : Session :=
  if Text.isBlank line then s
  else match parse line with
    | .error errors => s.tell (.rejected errors)
    | .ok program => exec fuel s program

/-- How a session ends, and what the reader failed with, if it did. -/
structure Result extends Session where
  error : Option String

/-- An interrupt is passed over; a failure of the reader ends the session. -/
def run (fuel : Nat) (s : Session) : List Input → Result
  | [] => ⟨s, none⟩
  | .interrupt :: rest => run fuel s rest
  | .failure message :: _ => ⟨s, some message⟩
  | .line text :: rest => run fuel (step fuel s text) rest

def Result.output (r : Result) : String := String.join (r.shown.map Shown.text)

end Session

end LetWhile
