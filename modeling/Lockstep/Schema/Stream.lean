import Lockstep.Format.Script
import Lockstep.Schema.Decode
import Lockstep.Schema.Encode

/-! # Streams of values

Values written one behind the other, each at a type of its own, which the bytes do not tell.
-/

namespace Lockstep.Registry

/-- Write values one behind the other. -/
def encodeEach (registry : Registry) (items : List (Ty × Value)) : Except EncodeError Bytes :=
  List.flatten <$> items.mapM fun entry => registry.encode entry.1 entry.2

/-- Read values one behind the other. Each comes with the position after it, also one that cannot be read. -/
def decodeEach (registry : Registry) (resolver : Resolver) :
    List Ty → ByteCursor → List (Except DecodeError Value × Nat)
  | [], _ => []
  | type :: types, cursor =>
    let (result, cursor) := cursor.read (registry.decode resolver cursor.context type)
    (result, cursor.position) :: registry.decodeEach resolver types cursor

end Lockstep.Registry
