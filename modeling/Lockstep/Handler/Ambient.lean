import Lockstep.Schema.Decode
import Lockstep.Schema.Encode

/-! # Ambient input

What the player points at when a command is captured: the cell under the mouse, the selection and the
queue key. A handler names by flags the parts that it needs; these and no others travel with its
commands.
-/

namespace Lockstep

/-- A cell of a map. -/
structure Cell where
  x : Int32
  z : Int32
  deriving DecidableEq, Repr

/-- The input that surrounds a command. -/
structure Ambient where
  mouse : Option Cell := none
  selection : List Value := []
  queueModifier : Bool := false
  deriving Repr, Inhabited

/-- The parts of the ambient input that a handler needs. -/
structure ContextFlags where
  mouse : Bool := false
  selection : Bool := false
  queueModifier : Bool := false
  deriving DecidableEq, Repr, Inhabited

namespace ContextFlags

def union (first second : ContextFlags) : ContextFlags where
  mouse := first.mouse || second.mouse
  selection := first.selection || second.selection
  queueModifier := first.queueModifier || second.queueModifier

/-- Whether the first flags hold all of the second. -/
def contains (first second : ContextFlags) : Bool := first.union second == first

def isEmpty (flags : ContextFlags) : Bool := flags == {}

/-- The flags as a number: 1 for the mouse, 2 for the selection, 4 for the queue key. -/
def bits (flags : ContextFlags) : UInt8 :=
  flags.mouse.toUInt8 + 2 * flags.selection.toUInt8 + 4 * flags.queueModifier.toUInt8

/-- The names of the flags that are set. -/
def names (flags : ContextFlags) : List String :=
  (if flags.mouse then ["mouse_cell"] else []) ++ (if flags.selection then ["selection"] else []) ++
    (if flags.queueModifier then ["queue_modifier"] else [])

/-- The flags as a set of quoted names. -/
def display (flags : ContextFlags) : String :=
  "\x7b" ++ ", ".intercalate (flags.names.map fun name => "\"" ++ name ++ "\"") ++ "\x7d"

end ContextFlags

namespace Ambient

/-- The flagged parts, in the order mouse, selection, queue key. -/
def encode (registry : Registry) (flags : ContextFlags) (selectionType : Ty) (ambient : Ambient) :
    Except EncodeError Bytes := do
  let mouse : Bytes :=
    if flags.mouse then
      match ambient.mouse with
      | some cell => 1 :: (Bytes.ofInt32 cell.x ++ Bytes.ofInt32 cell.z)
      | none => [0]
    else []
  let selection ← if flags.selection then registry.encode (.list selectionType) (.list ambient.selection)
    else pure []
  let queueModifier : Bytes := if flags.queueModifier then [ambient.queueModifier.toUInt8] else []
  return mouse ++ (selection ++ queueModifier)

/-- Read a cell that may be missing. -/
def decodeMouse : Decoder FormatError (Option Cell) := do
  if ← Decoder.bool then
    let x ← Decoder.int32
    let z ← Decoder.int32
    return some { x, z }
  else return none

/-- The items of a list value. -/
def itemsOf : Value → List Value
  | .list items => items
  | _ => []

/-- Read the flagged parts; the others are as if nothing were pointed at. What is selected and no longer
exists leaves the selection. -/
def decode (registry : Registry) (resolver : Resolver) (context : WireContext) (flags : ContextFlags)
    (selectionType : Ty) : Decoder DecodeError Ambient := do
  let mouse ← if flags.mouse then liftM decodeMouse else pure none
  let selection ← if flags.selection then do
      let items ← registry.decode resolver context (.list selectionType)
      pure ((itemsOf items).filter (!·.isNull))
    else pure []
  let queueModifier ← if flags.queueModifier then liftM Decoder.bool else pure false
  return { mouse, selection, queueModifier }

end Ambient

end Lockstep
