import LetWhile.Env
import LetWhile.Sink

namespace LetWhile

/-- How the bindings left by a program are shown. -/
inductive BindingsFormat where
  | none | text | yaml
  deriving DecidableEq, Repr

def BindingsFormat.ofName? : String → Option BindingsFormat
  | "none" => some .none
  | "text" => some .text
  | "yaml" => some .yaml
  | _ => Option.none

/-- An encoder of bindings, from outside: the writes that it makes for them, those that it makes when
it is closed, and how it tells of a write that has failed. -/
structure Encoder where
  encode : List (String × Value) → List String
  close : List (String × Value) → List String
  failure : String → String

namespace Encoder

/-- Everything that is written for some bindings. -/
def document (e : Encoder) (bindings : List (String × Value)) : String :=
  String.join (e.encode bindings ++ e.close bindings)

/-- What is documented of encoding: it writes a document, which is a text even for no bindings. -/
structure Documented (e : Encoder) : Prop where
  writes : ∀ bindings, e.document bindings ≠ ""

end Encoder

namespace Frame

def line (name : String) (v : Value) : String := s!"{name} = {v.text}\n"

/-- Shows the bindings, or tells why they could not be shown. Lines are written one by one. An
encoder is closed only if all that it has written was taken. -/
def display (f : Frame) (encoder : Encoder) (format : BindingsFormat) (out : Sink String) :
    Except String Unit × Sink String :=
  match format with
  | .none => (.ok (), out)
  | .text =>
    match out.writeAll (f.sorted.map fun (name, v) => line name v) with
    | (true, out') => (.ok (), out')
    | (false, out') => (.error Failure.writeFailed.message, out')
  | .yaml =>
    let failure := encoder.failure Failure.writeFailed.message
    match out.writeAll (encoder.encode f.entries) with
    | (false, out') => (.error s!"encode bindings: {failure}", out')
    | (true, out') =>
      match out'.writeAll (encoder.close f.entries) with
      | (false, out'') => (.error failure, out'')
      | (true, out'') => (.ok (), out'')

end Frame

end LetWhile
