import MappedNetlist.Library.Basic
import MappedNetlist.Toml.Reader

/-!
# Libraries in TOML

A library file lists models under the key `model`, each with a name and ports, each port with a
name, a direction, a width and a clock mark. The models of a library, the ports of a model and the
clock mark of a port may be left out, and keys with other names are passed over.
-/

namespace MappedNetlist

open Toml (Value)

def PortDecl.ofToml? (v : Value) : Option PortDecl := do
  match ← v.record? ["name", "direction", "width", "clock"] with
  | [some name, some direction, some width, clock] =>
    return ⟨← name.text?, ← direction.constant? >>= Direction.ofName?, ← width.word?,
      ← Value.fieldOr false Value.bool? clock⟩
  | _ => none

def Model.ofToml? (v : Value) : Option Model := do
  match ← v.record? ["name", "ports"] with
  | [some name, ports] =>
    return ⟨← name.text?, ← Value.fieldOr [] (Value.list? PortDecl.ofToml?) ports⟩
  | _ => none

namespace Library

def ofToml? (v : Value) : Option Library := do
  match ← v.record? ["model"] with
  | [models] => return ⟨← Value.fieldOr [] (Value.list? Model.ofToml?) models⟩
  | _ => none

/-- Reads a library as a reader of texts does, and validates it. -/
def readWith (read : String → Option Library) (text : String) : Except LibraryError Library :=
  match read text with
  | some l => l.validate
  | none => .error .malformed

/-- Reads a library from the text of a TOML document, and validates it. -/
def ofText (text : String) : Except LibraryError Library :=
  readWith (fun text => Value.ofText? text >>= ofToml?) text

/-- What is found at a path. -/
inductive FileContent
  | missing
  | directory
  | bytes (content : ByteArray)

/-- Reads a library from what is found at the path of its file. -/
def load : FileContent → Except LibraryError Library
  | .missing => .error (.unreadable .missing)
  | .directory => .error (.unreadable .isDirectory)
  | .bytes content =>
    match String.fromUTF8? content with
    | some text => ofText text
    | none => .error (.unreadable .notUnicode)

end Library

end MappedNetlist
