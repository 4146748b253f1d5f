import LetWhile.Dict
import LetWhile.Failure
import LetWhile.Forest

namespace LetWhile

/-- The bindings of one block. -/
abbrev Frame := Dict Value

namespace Frame

/-- A name is declared once in a frame. -/
def declare (f : Frame) (name : String) (v : Value) : Except Failure Frame :=
  if f.contains name then .error (.redeclared name) else .ok (f.insert name v)

end Frame

/-- The frames a statement sees: its block's own and those around it, nearest first. -/
structure Env where
  own : Frame
  outer : List Frame

namespace Env

def root : Env := ⟨Dict.empty, []⟩

def frames (e : Env) : List Frame := e.own :: e.outer

/-- The value in the nearest frame that binds the name. -/
def find? (name : String) : List Frame → Option Value
  | [] => none
  | f :: rest => if f.contains name then f.get? name else find? name rest

/-- Changes the nearest frame that binds the name. -/
def update? (name : String) (v : Value) : List Frame → Option (List Frame)
  | [] => none
  | f :: rest =>
    if f.contains name then some (f.insert name v :: rest)
    else (update? name v rest).map (f :: ·)

def get (e : Env) (name : String) : Except Failure Value :=
  match find? name e.frames with
  | some v => .ok v
  | none => .error (.undeclared name)

/-- Binds a name in the own frame. It may be bound further out. -/
def declare (e : Env) (name : String) (v : Value) : Except Failure Env :=
  match e.own.declare name v with
  | .ok own => .ok { e with own }
  | .error failure => .error failure

def assign (e : Env) (name : String) (v : Value) : Except Failure Env :=
  match update? name v e.frames with
  | some (own :: outer) => .ok ⟨own, outer⟩
  | _ => .error (.undeclared name)

/-- Goes into a block with the given frame. -/
def enter (e : Env) (inner : Frame) : Env := ⟨inner, e.frames⟩

/-- Goes back to the block around. -/
def leave (e : Env) : Env :=
  match e.outer with
  | [] => e
  | own :: outer => ⟨own, outer⟩

end Env

/-- Frames that share the frames around them. -/
abbrev Store := Forest Frame

namespace Store

/-- What a statement in frame `i` sees. -/
def env (s : Store) (i : Nat) : Env :=
  match s.chain i with
  | [] => .root
  | own :: outer => ⟨own, outer⟩

def declare (s : Store) (i : Nat) (name : String) (v : Value) : Except Failure Store :=
  match ((s.get? i).getD Dict.empty).declare name v with
  | .ok frame => .ok (s.set i frame)
  | .error failure => .error failure

/-- The nearest frame from `i` on that binds the name. -/
def binder? (s : Store) (i : Nat) (name : String) : Option Nat :=
  (s.path i).find? fun k => ((s.get? k).getD Dict.empty).contains name

def assign (s : Store) (i : Nat) (name : String) (v : Value) : Except Failure Store :=
  match s.binder? i name with
  | some k => .ok (s.set k (((s.get? k).getD Dict.empty).insert name v))
  | none => .error (.undeclared name)

def get (s : Store) (i : Nat) (name : String) : Except Failure Value := (s.env i).get name

end Store

end LetWhile
