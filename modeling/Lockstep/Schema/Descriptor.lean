import Lockstep.Format.Digest
import Lockstep.Schema.Reference
import Lockstep.Schema.Type

/-! # Descriptors

What is declared about a type: how its values are built, and the bytes by which it enters the digest of
the declarations.
-/

namespace Lockstep

/-- A named part of a record. -/
structure Field where
  name : String
  type : Ty
  deriving DecidableEq, Repr

/-- What is declared about a type. -/
inductive Descriptor where
  /-- One of a few numbers, written in an integer kind. -/
  | enumeration (repr : ScalarKind) (discriminants : List Int64)
  /-- All of several parts, in this order. -/
  | record (fields : List Field)
  | reference (category : RefCategory)
  /-- A value of any of these types. -/
  | interface (implementations : List String)
  | scope
  deriving DecidableEq, Repr

namespace Descriptor

def kind : Descriptor → String
  | enumeration _ _ => "enum"
  | record _ => "record"
  | reference _ => "reference"
  | interface _ => "interface"
  | scope => "scope"

/-- The declared types that a descriptor mentions, in order. -/
def dependencies : Descriptor → List String
  | record fields => fields.filterMap (·.type.name?)
  | interface implementations => implementations
  | enumeration _ _ | reference _ | scope => []

/-- The bytes by which a descriptor enters a digest. -/
def digestBytes (descriptor : Descriptor) : Bytes :=
  Digest.textBytes descriptor.kind ++
    match descriptor with
    | enumeration repr discriminants =>
      Digest.textBytes repr.name ++ discriminants.flatMap fun d => Bytes.ofUInt64 d.toUInt64
    | record fields =>
      .ofUInt32 (UInt32.ofNat fields.length) ++
        fields.flatMap fun field => Digest.textBytes field.name ++ Digest.textBytes field.type.display
    | reference category => Digest.textBytes category.name
    | interface implementations =>
      .ofUInt32 (UInt32.ofNat implementations.length) ++ implementations.flatMap Digest.textBytes
    | scope => []

end Descriptor

end Lockstep
