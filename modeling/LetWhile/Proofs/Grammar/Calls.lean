import LetWhile.Program.Parse

/-!
# How the functions of the parser call one another

Every function of the parser that calls itself or another one is written here as a script, which
says what the function does itself and leaves its calls open. No script is recursive, so nothing in
them knows that parsing ends. `Routine.perform` runs them, as deep as it is allowed to, and counts how
often it asks for a token; `Script.calls` lists the calls that a function makes.
-/

namespace LetWhile

/-- The functions that call themselves or one another. A loop is a function that calls itself. -/
inductive Routine where
  | unary
  | binary (left : Expr) (least : Nat)
  | tighter (right : Expr) (power : Nat)
  | expr
  | statement
  | block
  | statements
  | skip
  | run

/-- What a call gives. -/
abbrev Routine.Value : Routine → Type
  | .unary | .binary _ _ | .tighter _ _ | .expr => Expr
  | .statement => Stmt
  | .block | .statements => Block
  | .skip => Unit
  | .run => Parsed

/-- What a function does with the reader, up to a value or an error. -/
inductive Script (α : Type) where
  | done (a : α)
  | fail (e : SyntaxError)
  | peek (next : Token → Script α)
  | take (next : Token → Script α)
  | last (next : Option Loc → Script α)
  | note (e : SyntaxError) (next : Script α)
  | errors (next : List SyntaxError → Script α)
  | call (c : Routine) (next : Except SyntaxError c.Value → Script α)

namespace Script

/-- Goes on behind a value. -/
def andThen {α β : Type} : Script α → (α → Script β) → Script β
  | .done a, next => next a
  | .fail e, _ => .fail e
  | .peek k, next => .peek fun t => (k t).andThen next
  | .take k, next => .take fun t => (k t).andThen next
  | .last k, next => .last fun l => (k l).andThen next
  | .note e k, next => .note e (k.andThen next)
  | .errors k, next => .errors fun es => (k es).andThen next
  | .call c k, next => .call c fun x => (k x).andThen next

instance : Monad Script where
  pure := done
  bind := andThen

/-- A call whose error is an error of the caller. -/
def invoke (c : Routine) : Script c.Value :=
  .call c fun
    | .ok a => .done a
    | .error e => .fail e

/-- Fails at a token, or at the last place known if the token has none. -/
def failAt {α : Type} (t : Token) (cause : SyntaxError.Cause) : Script α :=
  .last fun place => .fail ⟨t.loc <|> place, cause⟩

def expect (wanted : Wanted) : Script Token :=
  .take fun t => if t.kind = wanted.kind then .done t else failAt t (.expected wanted t)

/-- The operator that a token stands for, if it binds tighter than `least`. -/
def operator? (least : Nat) (t : Token) : Option Op :=
  (Op.ofKind? t.kind).filter fun op => least < op.power

def literal : Script Expr :=
  .peek fun t =>
    match t.kind with
    | .number => .take fun _ =>
      match Number.read? t.text with
      | none => failAt t (.badNumber t.text)
      | some x => .done (.number x)
    | .true => .take fun _ => .done (.bool true)
    | .false => .take fun _ => .done (.bool false)
    | _ => failAt t (.noExpression t)

def terminated : Script Expr := do
  let e ← invoke .expr
  let _ ← expect .semicolon
  return e

def condition : Script Expr := do
  let _ ← expect .openTest
  let e ← invoke .expr
  let _ ← expect .closeTest
  return e

def bare : Script Stmt :=
  .peek fun t =>
    if t.kind = .identifier then .take fun _ => .peek fun u =>
      if u.kind = .assign then .take fun _ => do return .assign t.text (← terminated)
      else do
        let e ← invoke (.binary (.variable t.text) 0)
        let _ ← expect .semicolon
        return .eval e
    else do return .eval (← terminated)

end Script

open Script in
/-- What each function does. -/
def Routine.script : (c : Routine) → Script c.Value
  | .unary => .peek fun t =>
    match t.kind with
    | .minus => .take fun _ => do return Expr.binary .sub (.number 0) (← invoke .unary)
    | .openParen => .take fun _ => do
      let e ← invoke .expr
      let _ ← expect .closeGroup
      return e
    | .identifier => .take fun _ => .done (Expr.variable t.text)
    | _ => literal
  | .binary left least => .peek fun t =>
    match operator? least t with
    | some op => .take fun _ => do
      let right ← invoke .unary
      let right ← invoke (.tighter right op.power)
      invoke (.binary (.binary op left right) least)
    | none => .done left
  | .tighter right power => .peek fun t =>
    if (operator? power t).isSome then do
      let right ← invoke (.binary right power)
      invoke (.tighter right power)
    else .done right
  | .expr => do
    let left ← invoke .unary
    invoke (.binary left 0)
  | .statement => .peek fun t =>
    match t.kind with
    | .let => .take fun _ => do
      let name ← expect .name
      let _ ← expect .assign
      return Stmt.declare name.text (← terminated)
    | .if => .take fun _ => do
      let test ← condition
      let yes ← invoke .block
      .peek fun t =>
        if t.kind = .else then .take fun _ => do
          return Stmt.branch test yes (some (← invoke .block))
        else .done (Stmt.branch test yes none)
    | .while => .take fun _ => do
      let test ← condition
      return Stmt.loop test (← invoke .block)
    | .print => .take fun _ => do
      let e ← condition
      let _ ← expect .semicolon
      return Stmt.print e
    | .return => .take fun _ => do return Stmt.result (← terminated)
    | _ => bare
  | .block => do
    let _ ← expect .openBlock
    invoke .statements
  | .statements => .peek fun t =>
    if t.kind = .closeCurly then .take fun _ => .done []
    else if t.isOrdinary then do
      let s ← invoke .statement
      let body ← invoke .statements
      return (s :: body : Block)
    else .take fun u => failAt u .unclosedBlock
  | .skip => .peek fun t =>
    if t.isOrdinary then .take fun _ =>
      if t.kind = .semicolon ∨ t.kind = .closeCurly then .done () else invoke .skip
    else .done ()
  | .run => .peek fun t =>
    if t.isOrdinary then .call .statement fun
      | .ok s => do
        let more ← invoke .run
        return ⟨s :: more.statements, more.errors⟩
      | .error e => .note e do
        let _ ← invoke .skip
        invoke .run
    else .errors fun es => .done ⟨[], es⟩

/-! ## Running the scripts -/

/-- How often the tokenizer is asked until it gives a token that is no comment. It can be asked
without end: behind its last token it gives ends. -/
def Reader.asks : List Token → Nat
  | [] => 1
  | t :: ts => if t.isComment then asks ts + 1 else 1

/-- A reader and how often it has asked the tokenizer for a token. -/
structure Asker where
  reader : Reader
  asked : Nat := 0

namespace Asker

/-- A token in the buffer is not asked for again. -/
def ask (s : Asker) (reader : Reader) : Asker :=
  ⟨reader, if s.reader.buffer.isSome then s.asked else s.asked + Reader.asks s.reader.stream⟩

/-- Looks at the next token. -/
def look (s : Asker) : Asker := s.ask s.reader.looked

/-- Takes the next token. -/
def take (s : Asker) : Asker := s.ask s.reader.next.2

/-- The number of tokens that can still be taken. -/
def size (s : Asker) : Nat := s.reader.size

end Asker

/-- What calls give. -/
abbrev Routine.Answers : Type := (c : Routine) → Asker → Option (Except SyntaxError c.Value × Asker)

namespace Script

/-- Runs a script. It gives nothing if one of its calls gives nothing. -/
def perform {α : Type} (answers : Routine.Answers) :
    Script α → Asker → Option (Except SyntaxError α × Asker)
  | .done a, s => some (.ok a, s)
  | .fail e, s => some (.error e, s)
  | .peek k, s => (k s.reader.head).perform answers s.look
  | .take k, s => (k s.reader.next.1).perform answers s.take
  | .last k, s => (k s.reader.last).perform answers s
  | .note e k, s => k.perform answers { s with reader := s.reader.note e }
  | .errors k, s => (k s.reader.errors).perform answers s
  | .call c k, s =>
    match answers c s with
    | none => none
    | some (x, s') => (k x).perform answers s'

/-- The calls that a script makes, each with the reader at that time, up to the first that gives
nothing. -/
def calls {α : Type} (answers : Routine.Answers) : Script α → Asker → List (Routine × Asker)
  | .done _, _ | .fail _, _ => []
  | .peek k, s => (k s.reader.head).calls answers s.look
  | .take k, s => (k s.reader.next.1).calls answers s.take
  | .last k, s => (k s.reader.last).calls answers s
  | .note e k, s => k.calls answers { s with reader := s.reader.note e }
  | .errors k, s => (k s.reader.errors).calls answers s
  | .call c k, s =>
    (c, s) ::
      match answers c s with
      | none => []
      | some (x, s') => (k x).calls answers s'

end Script

namespace Routine

/-- Runs a function with calls at most `depth` deep, itself included. It gives nothing if they would
go deeper. -/
def perform : Nat → Answers
  | 0, _, _ => none
  | depth + 1, c, s => c.script.perform (perform depth) s

/-- The calls that a function makes itself, which may go `depth` deep. -/
def calls (depth : Nat) (c : Routine) (s : Asker) : List (Routine × Asker) :=
  c.script.calls (perform depth) s

/-- The level of the grammar that a function reads. -/
def level : Routine → Nat
  | .unary | .skip => 0
  | .binary _ _ => 1
  | .tighter _ _ => 2
  | .expr => 3
  | .statement => 4
  | .statements => 5
  | .block | .run => 6

end Routine

end LetWhile
