import LetWhile.Code.Render
import LetWhile.Command
import LetWhile.Yaml.Document.Read
import LetWhile.Yaml.Fields
import LetWhile.Yaml.Write

/-! What stands for the libraries when the program is run. -/
namespace LetWhile

namespace Yaml

def reader : RecordReader := fun name fields bytes =>
  let texts : Except Error (List (String × String)) := do
    match ← Document.read? (.ofBytes bytes) with
    | none => return []
    | some document => document.fields ⟨name, fields⟩
  texts.mapError fun e => ⟨e.message, e.isDefect⟩

/-- A document is written through a buffer. Nothing is left to be written when it is closed. -/
def encoder : Encoder where
  encode bindings := pieces (mapping bindings)
  close _ := []
  failure message := s!"yaml: write error: {message}"

end Yaml

def Libraries.linked : Libraries where
  reader := Yaml.reader
  encoder := Yaml.encoder
  listing := Code.listing

end LetWhile
