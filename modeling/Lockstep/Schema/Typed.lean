import Lockstep.Schema.Decode
import Lockstep.Schema.Encode

/-! # Data of static type

Scalars, scope references, lists and optional data in any nesting can be sent as they are. `StaticType`
names these types, `Carrier` is the type itself, and every such datum has a value and a type to be
written at.
-/

namespace Lockstep

/-- The type of the scalars of a kind. -/
def ScalarKind.Carrier : ScalarKind → Type
  | bool => Bool
  | u8 => UInt8
  | i8 => Int8
  | u16 => UInt16
  | i16 => Int16
  | u32 => UInt32
  | i32 => Int32
  | u64 => UInt64
  | i64 => Int64
  | f32 => Binary32
  | f64 => Binary64
  | string => String
  | bytes => Bytes

namespace Scalar

/-- The scalar that a datum of its kind's type is. -/
def ofCarrier : (kind : ScalarKind) → kind.Carrier → Scalar
  | .bool => .bool
  | .u8 => .u8
  | .i8 => .i8
  | .u16 => .u16
  | .i16 => .i16
  | .u32 => .u32
  | .i32 => .i32
  | .u64 => .u64
  | .i64 => .i64
  | .f32 => .f32
  | .f64 => .f64
  | .string => .string
  | .bytes => .bytes

/-- The datum of a scalar's type. -/
def carrier : (scalar : Scalar) → scalar.kind.Carrier
  | bool v => v
  | u8 v => v
  | i8 v => v
  | u16 v => v
  | i16 v => v
  | u32 v => v
  | i32 v => v
  | u64 v => v
  | i64 v => v
  | f32 v => v
  | f64 v => v
  | string v => v
  | bytes v => v

/-- The datum of a scalar, if it is of this kind. -/
def carrier? (scalar : Scalar) (kind : ScalarKind) : Option kind.Carrier :=
  if same : scalar.kind = kind then some (same ▸ scalar.carrier) else none

end Scalar

/-- The static types whose data can be sent. -/
inductive StaticType where
  | scalar (kind : ScalarKind)
  | scope
  | list (element : StaticType)
  | option (inner : StaticType)
  deriving DecidableEq, Repr

namespace StaticType

/-- The data of a static type. -/
def Carrier : StaticType → Type
  | scalar kind => kind.Carrier
  | scope => ScopeId
  | list element => List element.Carrier
  | option inner => Option inner.Carrier

/-- Read the notation of a static type: a scalar by its kind, a list in brackets, an option with a question
mark behind it. -/
def ofChars? (text : List Char) : Option StaticType :=
  match _last : text.getLast? with
  | some '?' => option <$> ofChars? text.dropLast
  | some ']' => list <$> ofChars? text.dropLast.tail
  | _ => if text = "scope".toList then some scope else scalar <$> ScalarKind.ofName? (String.ofList text)
termination_by text.length
decreasing_by
  all_goals
    have : text ≠ [] := by rintro rfl; simp at _last
    have := List.length_pos_iff.mpr this
    simp only [List.length_tail, List.length_dropLast]
    omega

/-- The type at which data is written. -/
def type : StaticType → Ty
  | scalar kind => .scalar kind
  | scope => .scope
  | list element => .list element.type
  | option inner => .nullable inner.type

/-- The value of a datum. Nested options flatten: a missing inner datum is as null as a missing one. -/
def toValue : (static : StaticType) → static.Carrier → Value
  | scalar kind, v => .scalar (.ofCarrier kind v)
  | scope, v => .scope v
  | list element, v => .list (v.map element.toValue)
  | option inner, v =>
    match v with
    | some v => inner.toValue v
    | none => .null

/-- The datum of a value, if it has the shape of the type. -/
def ofValue? : (static : StaticType) → Value → Option static.Carrier
  | scalar kind, v =>
    match v with
    | .scalar actual => actual.carrier? kind
    | _ => none
  | scope, v =>
    match v with
    | .scope actual => some actual
    | _ => none
  | list element, v =>
    match v with
    | .list items => items.mapM element.ofValue?
    | _ => none
  | option inner, v =>
    match v with
    | .null => some (none : Option inner.Carrier)
    | v => (inner.ofValue? v).map some

end StaticType

namespace Registry

/-- Write a datum of static type. -/
def encodeStatic (registry : Registry) (static : StaticType) (datum : static.Carrier) :
    Except EncodeError Bytes :=
  registry.encode static.type (static.toValue datum)

/-- Read a datum of static type. -/
def decodeStatic (registry : Registry) (resolver : Resolver) (context : WireContext)
    (static : StaticType) : Decoder DecodeError static.Carrier := do
  let value ← registry.decode resolver context static.type
  match static.ofValue? value with
  | some datum => return datum
  | none => throw (.shapeMismatch static.type.display)

end Registry

end Lockstep
