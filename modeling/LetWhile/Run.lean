import LetWhile.Eval

/-!
Running programs. A run threads one state through the statements and leaves its effects there, also
when it fails. Only loops can go on without end; `fuel` bounds the passes that each of them makes.
-/
namespace LetWhile

/-- What a run does that can be seen from outside, besides its bindings. -/
inductive Event where
  | declared (name : String) (value : Value)
  | branched (taken : Bool)
  | looped
  | printed (value : Value)
  | returned (statement : Nat) (value : Value)
  deriving DecidableEq

/-- The bindings, how many more lines the output accepts (no number: any), and what happened, the
latest event first. -/
structure State where
  env : Env
  room : Option Nat := none
  past : List Event := []

namespace State

def emit (s : State) (e : Event) : State := { s with past := e :: s.past }

/-- What happened, in order. -/
def events (s : State) : List Event := s.past.reverse

def enter (s : State) (inner : Frame) : State := { s with env := s.env.enter inner }

def leave (s : State) : State := { s with env := s.env.leave }

end State

/-- How a statement ends. -/
inductive Ending where
  | normal
  | returned (value : Value)
  | failed (failure : Failure)
  | outOfFuel
  deriving DecidableEq

/-- Puts the environment that an operation gives into the state. -/
def State.update (s : State) : Except Failure Env → Ending × State
  | .ok env => (.normal, { s with env })
  | .error failure => (.failed failure, s)

/-- One line of output. -/
def State.print (s : State) (v : Value) : Ending × State :=
  match s.room with
  | none => (.normal, s.emit (.printed v))
  | some 0 => (.failed .writeFailed, s)
  | some (n + 1) => (.normal, { s with room := some n }.emit (.printed v))

/-- Goes on with the value of an expression. -/
def State.withValue (s : State) (e : Expr) (next : Value → Ending × State) : Ending × State :=
  match e.eval s.env with
  | .ok v => next v
  | .error failure => (.failed failure, s)

/-- Repeats `body` while the test holds. All passes share one frame, which the test does not see. -/
def State.iterate (test : Expr) (body : State → Ending × State) :
    Nat → Frame → State → Ending × State
  | 0, _, s => (.outOfFuel, s)
  | fuel + 1, inner, s =>
    match test.test .loop s.env with
    | .error failure => (.failed failure, s)
    | .ok false => (.normal, s)
    | .ok true =>
      match body (s.enter inner) with
      | (.normal, s') => s'.leave.iterate test body fuel s'.env.own
      | (ending, s') => (ending, s'.leave)

mutual

def Stmt.exec (fuel : Nat) : Stmt → State → Ending × State
  | .declare name e, s =>
    s.withValue e fun v => (s.emit (.declared name v)).update (s.env.declare name v)
  | .assign name e, s => s.withValue e fun v => s.update (s.env.assign name v)
  | .branch test yes no, s =>
    match test.test .branch s.env with
    | .error failure => (.failed failure, s)
    | .ok taken =>
      let inner := (s.emit (.branched taken)).enter Dict.empty
      let (ending, s') := match taken, no with
        | true, _ => Block.exec fuel yes inner
        | false, some no => Block.exec fuel no inner
        | false, none => (.normal, inner)
      (ending, s'.leave)
  | .loop test body, s =>
    (s.emit .looped).iterate test (fun s => Block.exec fuel body s) fuel Dict.empty
  | .print e, s => s.withValue e s.print
  | .eval e, s => s.withValue e fun _ => (.normal, s)
  | .result e, s => s.withValue e fun v => (.returned v, s)
  | .hole, s => (.failed (.defect .stmtHole), s)

/-- Statement after statement, until one does not end normally. -/
def Block.exec (fuel : Nat) : List Stmt → State → Ending × State
  | [], s => (.normal, s)
  | stmt :: rest, s =>
    match stmt.exec fuel s with
    | (.normal, s') => Block.exec fuel rest s'
    | stopped => stopped

end

/-- How a program ends. Statements count from one. -/
inductive Outcome where
  | finished
  | returned (value : Value)
  | failed (statement : Nat) (failure : Failure)
  | outOfFuel
  deriving DecidableEq

namespace Outcome

def returned? : Outcome → Option Value
  | .returned v => some v
  | _ => none

/-- A failure is reported with its statement; a defect of the tree speaks for itself. -/
def message? : Outcome → Option String
  | .failed k failure =>
    some (if failure.isDefect then failure.message else s!"statement {k}: {failure.message}")
  | _ => none

end Outcome

/-- Runs the statements of a program, the first of them having the given number. -/
def Block.runFrom (fuel : Nat) (number : Nat) : List Stmt → State → Outcome × State
  | [], s => (.finished, s)
  | stmt :: rest, s =>
    match stmt.exec fuel s with
    | (.normal, s') => Block.runFrom fuel (number + 1) rest s'
    | (.returned v, s') => (.returned v, s'.emit (.returned number v))
    | (.failed failure, s') => (.failed number failure, s')
    | (.outOfFuel, s') => (.outOfFuel, s')

def Block.run (fuel : Nat) (program : Block) (s : State) : Outcome × State :=
  Block.runFrom fuel 1 program s

/-- More passes than anyone waits for. -/
def enoughFuel : Nat := 1000000000000000000

/-- The lines that were printed. -/
def State.lines (s : State) : List String := s.events.filterMap fun
  | .printed v => some v.text
  | _ => none

def State.output (s : State) : String := String.join (s.lines.map (· ++ "\n"))

end LetWhile
