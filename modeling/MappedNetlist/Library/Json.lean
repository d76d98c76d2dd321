import MappedNetlist.Json.Codec
import MappedNetlist.Library.Basic

/-!
# JSON forms of models and libraries

A model is written with its name and its ports, a port with its name, direction, width and clock
mark, and a library as an object whose one field `model` lists the models. The ports of a model,
the clock mark of a port and the models of a library may be left out.
-/

namespace MappedNetlist

open Json

instance : Codec Direction where
  encode d := .string (some d.name)
  decode v := v.constant? >>= Direction.ofName?

instance : Codec PortClass where
  encode c := .string (some c.name)
  decode v := v.constant? >>= PortClass.ofName?

instance : Codec PortDecl where
  encode p := .ofFields
    [("name", encode p.name), ("direction", encode p.direction), ("width", encode p.width),
      ("clock", encode p.clock)]
  decode v := do
    match ← v.record? ["name", "direction", "width", "clock"] with
    | [name, direction, width, clock] =>
      return ⟨← required name, ← required direction, ← required width, ← defaulted false clock⟩
    | _ => none

instance : Codec Model where
  encode m := .ofFields [("name", encode m.name), ("ports", encode m.ports)]
  decode v := do
    match ← v.record? ["name", "ports"] with
    | [name, ports] => return ⟨← required name, ← defaulted [] ports⟩
    | _ => none

instance : Codec Library where
  encode l := .ofFields [("model", encode l.models)]
  decode v := do
    match ← v.record? ["model"] with
    | [models] => return ⟨← defaulted [] models⟩
    | _ => none

end MappedNetlist
