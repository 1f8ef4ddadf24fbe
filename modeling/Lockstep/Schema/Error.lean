import Lockstep.Format.Error

/-! # What can be wrong with declarations and values

The causes for which declarations are refused and values cannot be written or read, their wording, and
their names in reports.
-/

namespace Lockstep

/-- Why a list of declarations is refused. -/
inductive DeclarationError where
  | duplicateType (name : String)
  | unresolvedType (owner missing : String)
  | nonIntegerEnum (name : String)
  | discriminantOutOfRange (name : String) (discriminant : Int64)
  | noCategory (name : String)
  | notAnInterface (name : String)
  | abstractImplementation (name : String)
  | tooManyImplementations (name : String) (count : Nat)
  deriving DecidableEq, Repr

namespace DeclarationError

def quote (name : String) : String := "'" ++ name ++ "'"

/-- The text shown for refused declarations. -/
def message : DeclarationError → String
  | duplicateType name => "type " ++ quote name ++ " registered twice"
  | unresolvedType owner missing =>
    "type " ++ quote owner ++ " refers to unregistered type " ++ quote missing
  | nonIntegerEnum name => "enum " ++ quote name ++ " must use an integer representation"
  | discriminantOutOfRange name discriminant =>
    "enum " ++ quote name ++ " discriminant " ++ toString discriminant.toInt ++
      " does not fit its representation"
  | noCategory name => "reference type " ++ quote name ++ " has no category"
  | notAnInterface name => quote name ++ " is not a registered interface"
  | abstractImplementation name => "interface " ++ quote name ++ " cannot be an implementation"
  | tooManyImplementations name count =>
    "interface " ++ quote name ++ " has " ++ toString count ++
      " implementations, more than a u16 index allows"

/-- The name of an error in reports. -/
def kind : DeclarationError → String
  | duplicateType _ => "DuplicateType"
  | unresolvedType _ _ => "UnresolvedType"
  | nonIntegerEnum _ => "NonIntegerEnum"
  | discriminantOutOfRange _ _ => "DiscriminantOutOfRange"
  | noCategory _ => "NoCategory"
  | notAnInterface _ => "NotAnInterface"
  | abstractImplementation _ => "AbstractImplementation"
  | tooManyImplementations _ _ => "TooManyImplementations"

instance : Reported DeclarationError := ⟨DeclarationError.kind, DeclarationError.message⟩

end DeclarationError

/-- Why a value cannot be written at a type. -/
inductive EncodeError where
  | unknownType (type : String)
  | typeMismatch (expected found : String)
  | fieldCount (type : String) (expected found : Nat)
  | badDiscriminant (type : String) (discriminant : Int64)
  | unknownImplementation (interface concrete : String)
  | idOutOfRange (type : String) (id : Nat)
  | format (error : FormatError)
  deriving DecidableEq, Repr

/-- The text shown for a value that cannot be written. -/
def EncodeError.message : EncodeError → String
  | unknownType type => "unregistered type '" ++ type ++ "'"
  | typeMismatch expected found => "expected " ++ expected ++ ", found " ++ found
  | fieldCount type expected found =>
    "record '" ++ type ++ "' expects " ++ toString expected ++ " fields, found " ++ toString found
  | badDiscriminant type discriminant =>
    "enum '" ++ type ++ "' has no discriminant " ++ toString discriminant.toInt
  | unknownImplementation interface concrete =>
    "'" ++ concrete ++ "' is not an implementation of '" ++ interface ++ "'"
  | idOutOfRange type id => "'" ++ type ++ "' id " ++ toString id ++ " is outside the encodable range"
  | format error => error.message

/-- The name of an error in reports. -/
def EncodeError.kind : EncodeError → String
  | unknownType _ => "UnknownType"
  | typeMismatch _ _ => "TypeMismatch"
  | fieldCount _ _ _ => "FieldCount"
  | badDiscriminant _ _ => "BadDiscriminant"
  | unknownImplementation _ _ => "UnknownImplementation"
  | idOutOfRange _ _ => "IdOutOfRange"
  | format error => "Wire." ++ error.kind

instance : Reported EncodeError := ⟨EncodeError.kind, EncodeError.message⟩

/-- Why bytes are no value of a type. -/
inductive DecodeError where
  | unknownType (type : String)
  | badEnumDiscriminant (type : String) (discriminant : Int64)
  | badImplementationIndex (interface : String) (index : UInt16)
  | badReferenceDiscriminant (tag : UInt8)
  | badScope (raw : Int32)
  | tooDeep (limit : Nat)
  | shapeMismatch (expected : String)
  | format (error : FormatError)
  deriving DecidableEq, Repr

/-- The text shown for bytes that are no value. -/
def DecodeError.message : DecodeError → String
  | unknownType type => "unregistered type '" ++ type ++ "'"
  | badEnumDiscriminant type discriminant =>
    "enum '" ++ type ++ "' has no discriminant " ++ toString discriminant.toInt
  | badImplementationIndex interface index =>
    "interface '" ++ interface ++ "' has no implementation at index " ++ toString index.toNat
  | badReferenceDiscriminant tag =>
    "unknown entity container discriminator " ++ toString tag.toNat
  | badScope raw => "invalid scope reference " ++ toString raw.toInt
  | tooDeep limit => "value nesting exceeds " ++ toString limit
  | shapeMismatch expected => "decoded value does not convert to " ++ expected
  | format error => error.message

/-- The name of an error in reports. -/
def DecodeError.kind : DecodeError → String
  | unknownType _ => "UnknownType"
  | badEnumDiscriminant _ _ => "BadEnumDiscriminant"
  | badImplementationIndex _ _ => "BadImplementationIndex"
  | badReferenceDiscriminant _ => "BadReferenceDiscriminant"
  | badScope _ => "BadScope"
  | tooDeep _ => "TooDeep"
  | shapeMismatch _ => "ShapeMismatch"
  | format error => "Wire." ++ error.kind

instance : Reported DecodeError := ⟨DecodeError.kind, DecodeError.message⟩

end Lockstep
