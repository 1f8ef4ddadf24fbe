import Lockstep.Schema.Registry
import Lockstep.Schema.Value

/-! # Writing values

A value is written at a type. What can be absent has a mark of its own: the byte 1 for a nullable
value (a present one follows the bytes 0 and 1), a negative word for an entity or session, 255 for an
entity of any container, 65535 for a definition or an interface, and the least signed word for a scope.
-/

namespace Lockstep

namespace Value

/-- The refusal of a value that does not fit a type. -/
def mismatch (value : Value) (expected : String) : EncodeError := .typeMismatch expected value.describe

end Value

/-- An id as a signed word that is not negative. -/
def encodeId (type : String) (id : UInt32) : Except EncodeError Bytes :=
  if id ≤ 0x7fffffff then .ok (.ofUInt32 id) else .error (.idOutOfRange type id.toNat)

namespace EntityRef

/-- An entity of any container: a tag for the kind of container, then the ids. -/
def encode (type : String) : EntityRef → Except EncodeError Bytes
  | spawned id => do
    return 0 :: (← encodeId type id)
  | nested parent id => do
    let parent ← encodeId type parent
    let id ← encodeId type id
    return 1 :: (parent ++ id)
  | inComponent owner slot id => do
    let owner ← encodeId type owner
    let id ← encodeId type id
    return 2 :: (owner ++ (Bytes.ofUInt16 slot ++ id))

end EntityRef

namespace RefCategory

/-- A reference of this category at a declared type. -/
def encode (type : String) (category : RefCategory) (value : Value) : Except EncodeError Bytes :=
  match category, value with
  | session, .null => .ok (.ofInt32 (-1))
  | session, .session actual id =>
    if actual = type then encodeId type id else .error (value.mismatch type)
  | definition, .null => .ok (.ofUInt16 0xffff)
  | definition, .definition actual id =>
    if actual = type then
      if id = 0xffff then .error (.idOutOfRange type id.toNat) else .ok (.ofUInt16 id)
    else .error (value.mismatch type)
  | spawned, .null | worldObject, .null => .ok (.ofInt32 (-1))
  | spawned, .entity actual (.spawned id) | worldObject, .entity actual (.spawned id) =>
    if actual = type then encodeId type id else .error (value.mismatch type)
  | thing, .null => .ok [0xff]
  | thing, .entity actual reference =>
    if actual = type then reference.encode type else .error (value.mismatch type)
  | _, _ => .error (value.mismatch type)

end RefCategory

namespace ScalarKind

/-- The scalar of an integer kind that is this number. -/
def ofInt? (kind : ScalarKind) (n : Int64) : Option Scalar :=
  if kind.holds n then
    match kind with
    | u8 => some (.u8 n.toUInt64.toUInt8)
    | i8 => some (.i8 n.toInt8)
    | u16 => some (.u16 n.toUInt64.toUInt16)
    | i16 => some (.i16 n.toInt16)
    | u32 => some (.u32 n.toUInt64.toUInt32)
    | i32 => some (.i32 n.toInt32)
    | u64 => some (.u64 n.toUInt64)
    | i64 => some (.i64 n)
    | bool | f32 | f64 | string | bytes => none
  else none

end ScalarKind

namespace Scalar

/-- The bytes of a scalar, as part of a value. -/
def encodeValue (scalar : Scalar) : Except EncodeError Bytes := scalar.encode.mapError .format

end Scalar

/-- A discriminant of an enumeration. -/
def encodeDiscriminant (type : String) (repr : ScalarKind) (discriminants : List Int64)
    (discriminant : Int64) : Except EncodeError Bytes :=
  if discriminants.contains discriminant then
    match repr.ofInt? discriminant with
    | some scalar => scalar.encodeValue
    | none => .error (.badDiscriminant type discriminant)
  else .error (.badDiscriminant type discriminant)

/-- Write the nullable layers of a type around what `core` writes at the type within. -/
def Ty.encodeLayers (isNull : Bool) (core : Ty → Except EncodeError Bytes) : Ty → Except EncodeError Bytes
  | .nullable inner =>
    if isNull then .ok [1]
    else do return 0 :: 1 :: (← encodeLayers isNull core inner)
  | type => core type

namespace Registry

mutual

/-- The bytes of a value at a type. -/
def encodeValue (registry : Registry) (value : Value) (type : Ty) : Except EncodeError Bytes :=
  type.encodeLayers value.isNull fun type =>
    match type with
    | .unit =>
      match value with
      | .unit => .ok []
      | value => .error (value.mismatch type.display)
    | .scalar kind =>
      match value with
      | .scalar scalar =>
        if scalar.kind = kind then scalar.encodeValue else .error (value.mismatch kind.name)
      | value => .error (value.mismatch kind.name)
    | .list element =>
      match value with
      | .list items => do
        let count ← (Bytes.ofCount? items.length).mapError .format
        return count ++ (← encodeItems registry items element []).reverse.flatten
      | value => .error (value.mismatch type.display)
    | .nullable _ => .error (value.mismatch type.display)
    | .named name =>
      match registry.descriptor? name with
      | none => .error (.unknownType name)
      | some (.enumeration repr discriminants) =>
        match value with
        | .enumeration actual discriminant =>
          if actual = name then encodeDiscriminant name repr discriminants discriminant
          else .error (value.mismatch name)
        | value => .error (value.mismatch name)
      | some (.record fields) =>
        match value with
        | .record actual values =>
          if actual = name then
            if values.length = fields.length then do
              return (← encodeFields registry values fields []).reverse.flatten
            else .error (.fieldCount name fields.length values.length)
          else .error (value.mismatch name)
        | value => .error (value.mismatch name)
      | some (.reference category) => category.encode name value
      | some .scope =>
        match value with
        | .null => .ok (.ofInt32 Int32.minValue)
        | .scope scope =>
          if scope.isRepresentable then .ok (.ofInt32 scope.toWire) else .error (value.mismatch name)
        | value => .error (value.mismatch name)
      | some (.interface implementations) =>
        match value with
        | .null => .ok (.ofUInt16 0xffff)
        | .object concrete payload =>
          match implementations.idxOf? concrete with
          | none => .error (.unknownImplementation name concrete)
          | some index => do
            return Bytes.ofUInt16 (UInt16.ofNat index) ++ (← encodeValue registry payload (.named concrete))
        | value => .error (value.mismatch name)

/-- The bytes of items at one type, in front of the chunks written before, the latest first. -/
def encodeItems (registry : Registry) :
    List Value → Ty → List Bytes → Except EncodeError (List Bytes)
  | [], _, chunks => .ok chunks
  | item :: items, type, chunks => do
    let chunk ← encodeValue registry item type
    encodeItems registry items type (chunk :: chunks)

/-- The bytes of values at the types of fields, in front of the chunks written before. -/
def encodeFields (registry : Registry) :
    List Value → List Field → List Bytes → Except EncodeError (List Bytes)
  | value :: values, field :: fields, chunks => do
    let chunk ← encodeValue registry value field.type
    encodeFields registry values fields (chunk :: chunks)
  | _, _, chunks => .ok chunks

end

/-- Write a value at a type. -/
def encode (registry : Registry) (type : Ty) (value : Value) : Except EncodeError Bytes :=
  registry.encodeValue value type

end Registry

end Lockstep
