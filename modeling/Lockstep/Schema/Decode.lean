import Lockstep.Format.Context
import Lockstep.Schema.Registry
import Lockstep.Schema.Value

/-! # Reading values

A value is read at a type, for a scope, through a resolver. A reference that the resolver does not know
is read as absent, and so is an interface value whose payload turns out absent. Reading stops at a
fixed depth of nesting, so no input can exhaust the reader.
-/

namespace Lockstep

namespace Decoder

/-- Reads of plain data are part of the reading of values. -/
instance : MonadLift (Decoder FormatError) (Decoder DecodeError) := ⟨mapError .format⟩

/-- An id as a signed word; a negative one stands for nothing. -/
def id? : Decoder FormatError (Option UInt32) := do
  let raw ← int32
  return if 0 ≤ raw then some raw.toUInt32 else none

end Decoder

/-- How many levels of nesting a value may have below its outermost one. -/
def maxDepth : Nat := 64

namespace EntityRef

/-- The rest of an entity reference after its tag. Both ids are read before either is looked at. -/
def decode (tag : UInt8) : Decoder DecodeError (Option EntityRef) :=
  match tag with
  | 0 => do return (← Decoder.id?).map spawned
  | 1 => do
    let parent? ← Decoder.id?
    let id? ← Decoder.id?
    return do
      let parent ← parent?
      let id ← id?
      return nested parent id
  | 2 => do
    let owner? ← Decoder.id?
    let slot ← Decoder.uint16
    let id? ← Decoder.id?
    return do
      let owner ← owner?
      let id ← id?
      return inComponent owner slot id
  | tag => throw (.badReferenceDiscriminant tag)

end EntityRef

namespace RefCategory

/-- The value of an entity that a resolver was asked for. -/
def entityValue (type : String) : Option EntityRef → Value
  | some reference => .entity type reference
  | none => .null

/-- Read a reference of this category at a declared type. World objects belong to no map, so they are
looked up in the global scope. -/
def decode (resolver : Resolver) (scope : ScopeId) (type : String) :
    RefCategory → Decoder DecodeError Value
  | session => do
    match ← Decoder.id? with
    | some id => return if resolver.session type id then .session type id else .null
    | none => return .null
  | definition => do
    let id ← Decoder.uint16
    return if id = 0xffff then .null
      else if resolver.definition type id then .definition type id else .null
  | spawned => do
    match ← Decoder.id? with
    | some id => return entityValue type (resolver.entity scope type (.spawned id))
    | none => return .null
  | worldObject => do
    match ← Decoder.id? with
    | some id => return entityValue type (resolver.entity .global type (.spawned id))
    | none => return .null
  | thing => do
    let tag ← Decoder.uint8
    if tag = 0xff then return .null
    match ← EntityRef.decode tag with
    | some reference => return entityValue type (resolver.entity scope type reference)
    | none => return .null

end RefCategory

namespace ScalarKind

/-- Read a discriminant written in an integer kind. A number above the signed range, which is no
discriminant, is read as the least one. -/
def decodeInt : ScalarKind → Decoder DecodeError Int64
  | u8 => do return (← Decoder.uint8).toUInt64.toInt64
  | i8 => do return (← Decoder.uint8).toInt8.toInt64
  | u16 => do return (← Decoder.uint16).toUInt64.toInt64
  | i16 => do return (← Decoder.uint16).toInt16.toInt64
  | u32 => do return (← Decoder.uint32).toUInt64.toInt64
  | i32 => do return (← Decoder.uint32).toInt32.toInt64
  | u64 => do
    let n ← Decoder.uint64
    return if n.toNat < UInt64.size / 2 then n.toInt64 else Int64.minValue
  | i64 => do return (← Decoder.uint64).toInt64
  | kind => throw (.unknownType kind.name)

end ScalarKind

namespace Registry

/-- Reads a value at a type. -/
abbrev ValueDecoder := Ty → Decoder DecodeError Value

/-- Read a value of a declared type that is no interface; `parts` reads the parts of a record. -/
def decodePlain (resolver : Resolver) (scope : ScopeId) (parts : ValueDecoder) (name : String) :
    Descriptor → Decoder DecodeError Value
  | .enumeration repr discriminants => do
    let discriminant ← repr.decodeInt
    if discriminants.contains discriminant then return .enumeration name discriminant
    throw (.badEnumDiscriminant name discriminant)
  | .record fields => do
    let values ← fields.foldlM (fun values field => do
      let value ← parts field.type
      return value :: values) []
    return .record name values.reverse
  | .reference category => category.decode resolver scope name
  | .scope => do
    let raw ← Decoder.int32
    if raw = Int32.minValue then return .null
    match ScopeId.ofWire? raw with
    | some named => return if resolver.scope named then .scope named else .null
    | none => throw (.badScope raw)
  | .interface _ => throw (.unknownType name)

/-- Read a value of a declared type. `parts` reads the parts of a record, `deeper` those of a record
behind an interface. -/
def decodeNamed (registry : Registry) (resolver : Resolver) (scope : ScopeId)
    (parts deeper : ValueDecoder) (name : String) : Decoder DecodeError Value :=
  match registry.descriptor? name with
  | none => throw (.unknownType name)
  | some (.interface implementations) => do
    let index ← Decoder.uint16
    if index = 0xffff then return .null
    match implementations[index.toNat]? with
    | none => throw (.badImplementationIndex name index)
    | some concrete =>
      match registry.descriptor? concrete with
      | none => throw (.unknownType concrete)
      | some descriptor =>
        let payload ← decodePlain resolver scope deeper concrete descriptor
        return if payload.isNull then .null else .object concrete payload
  | some descriptor => decodePlain resolver scope parts name descriptor

/-- Read one level of a value: `below` reads what lies one level below it, `deeper` two. -/
def decodeLevel (registry : Registry) (resolver : Resolver) (scope : ScopeId)
    (below deeper : ValueDecoder) : ValueDecoder
  | .unit => return .unit
  | .scalar kind => do return .scalar (← kind.decode)
  | .list element => do
    let count ← Decoder.count
    return .list (← Decoder.replicate count (below element))
  | .nullable inner => do
    if ← Decoder.bool then return .null
    if ← Decoder.bool then below inner else return .null
  | .named name => decodeNamed registry resolver scope below deeper name

/-- The reader of what lies too deep. -/
def refuse : ValueDecoder := fun _ => throw (.tooDeep maxDepth)

/-- Read a value of at most so many levels. -/
def decodeWithin (registry : Registry) (resolver : Resolver) (scope : ScopeId) : Nat → ValueDecoder
  | 0 => refuse
  | 1 => decodeLevel registry resolver scope refuse refuse
  | levels + 2 =>
    decodeLevel registry resolver scope (decodeWithin registry resolver scope (levels + 1))
      (decodeWithin registry resolver scope levels)

/-- Read a value at a type. -/
def decode (registry : Registry) (resolver : Resolver) (context : WireContext) (type : Ty) :
    Decoder DecodeError Value :=
  decodeWithin registry resolver context.lookupScope (maxDepth + 1) type

end Registry

end Lockstep
