import Lockstep.NameOrder
import Lockstep.Schema.Descriptor
import Lockstep.Schema.Error
import Lockstep.SortedMap

/-! # Registries

A registry holds the declared types by name. It is built from a list of declarations, all of which have
to be in order: of several faults the one named is the first by declaration, then by implementation,
then by the types that a declaration mentions. Implementations of an interface stand in name order,
so the order of declaration leaves no trace in what is built.
-/

namespace Lockstep

/-- One declaration. -/
inductive Declaration where
  | enumeration (name : String) (repr : ScalarKind) (discriminants : List Int64)
  | record (name : String) (fields : List Field)
  | reference (name : String) (categories : List RefCategory)
  | interface (name : String)
  /-- The second type implements the first. -/
  | implementation (interface concrete : String)
  deriving DecidableEq, Repr

/-- The declared types. -/
structure Registry where
  types : SortedMap String Descriptor

namespace ScalarKind

/-- The least and the largest number that an integer kind holds, within the signed 64-bit range for
the kinds that are no integers. -/
def bounds : ScalarKind → Int × Int
  | u8 => (0, UInt8.size - 1)
  | i8 => (Int8.minValue.toInt, Int8.maxValue.toInt)
  | u16 => (0, UInt16.size - 1)
  | i16 => (Int16.minValue.toInt, Int16.maxValue.toInt)
  | u32 => (0, UInt32.size - 1)
  | i32 => (Int32.minValue.toInt, Int32.maxValue.toInt)
  | u64 => (0, UInt64.size - 1)
  | i64 | bool | f32 | f64 | string | bytes => (Int64.minValue.toInt, Int64.maxValue.toInt)

/-- Whether a discriminant can be written in a kind. -/
def holds (kind : ScalarKind) (discriminant : Int64) : Bool :=
  kind.bounds.1 ≤ discriminant.toInt && discriminant.toInt ≤ kind.bounds.2

end ScalarKind

namespace Registry

/-- Types declared so far, in the order of their declarations. -/
abbrev Declared := List (String × Descriptor)

/-- Every registry knows the type of scope references. -/
def builtin : Declared := [(scopeTypeName, .scope)]

def declare (declared : Declared) (name : String) (descriptor : Descriptor) :
    Except DeclarationError Declared :=
  if (declared.lookup name).isSome then .error (.duplicateType name)
  else .ok (declared ++ [(name, descriptor)])

/-- Take in one declaration. An implementation is looked at once all types are known. -/
def addDeclaration (declared : Declared) : Declaration → Except DeclarationError Declared
  | .enumeration name repr discriminants =>
    if !repr.isInteger then .error (.nonIntegerEnum name)
    else match discriminants.find? (!repr.holds ·) with
      | some discriminant => .error (.discriminantOutOfRange name discriminant)
      | none => declare declared name (.enumeration repr discriminants)
  | .record name fields => declare declared name (.record fields)
  | .reference name categories =>
    match RefCategory.select categories with
    | some category => declare declared name (.reference category)
    | none => .error (.noCategory name)
  | .interface name => declare declared name (.interface [])
  | .implementation _ _ => .ok declared

/-- Enter an implementation with its interface; a second time changes nothing. -/
def addImplementation (declared : Declared) (interface concrete : String) :
    Except DeclarationError Declared :=
  match declared.lookup concrete with
  | none => .error (.unresolvedType interface concrete)
  | some (.interface _) => .error (.abstractImplementation concrete)
  | some _ =>
    match declared.lookup interface with
    | some (.interface implementations) =>
      if implementations.contains concrete then .ok declared
      else .ok (declared.map fun entry =>
        if entry.1 == interface then (interface, .interface (implementations ++ [concrete])) else entry)
    | _ => .error (.notAnInterface interface)

/-- The implementations among the declarations, as interface and implementing type. -/
def implementationPairs (declarations : List Declaration) : List (String × String) :=
  declarations.filterMap fun
    | .implementation interface concrete => some (interface, concrete)
    | _ => none

/-- Put the implementations of an interface into name order. -/
def sortImplementations : Descriptor → Descriptor
  | .interface implementations => .interface (sortByName id implementations)
  | descriptor => descriptor

/-- Every interface leaves one index free, which stands for no value. -/
def checkCounts (declared : Declared) : Except DeclarationError Unit :=
  declared.forM fun entry =>
    match entry.2 with
    | .interface implementations =>
      if 65535 ≤ implementations.length then
        .error (.tooManyImplementations entry.1 implementations.length)
      else .ok ()
    | _ => .ok ()

/-- Every type mentioned is declared. -/
def checkDependencies (declared : Declared) : Except DeclarationError Unit :=
  declared.forM fun entry =>
    match entry.2.dependencies.find? fun name => (declared.lookup name).isNone with
    | some missing => .error (.unresolvedType entry.1 missing)
    | none => .ok ()

/-- Build a registry from declarations. -/
def build (declarations : List Declaration) : Except DeclarationError Registry := do
  let declared ← declarations.foldlM addDeclaration builtin
  let declared ← (implementationPairs declarations).foldlM
    (fun declared pair => addImplementation declared pair.1 pair.2) declared
  let declared := declared.map fun entry => (entry.1, sortImplementations entry.2)
  checkCounts declared
  checkDependencies declared
  return ⟨.ofList declared⟩

def descriptor? (registry : Registry) (name : String) : Option Descriptor := registry.types.get? name

/-- The implementations of an interface, in name order. -/
def implementations? (registry : Registry) (interface : String) : Option (List String) :=
  match registry.descriptor? interface with
  | some (.interface implementations) => some implementations
  | _ => none

/-- Refuse a type that mentions an undeclared one. -/
def check (registry : Registry) (type : Ty) : Except EncodeError Unit :=
  match type.name? with
  | none => .ok ()
  | some name => if registry.types.contains name then .ok () else .error (.unknownType name)

/-- The bytes whose digest is the fingerprint: each name with its descriptor, in name order. -/
def digestBytes (registry : Registry) : Bytes :=
  registry.types.entries.flatMap fun entry => Digest.textBytes entry.1 ++ entry.2.digestBytes

/-- A number by which peers notice that their declarations differ. -/
def fingerprint (registry : Registry) : Digest := Digest.ofBytes registry.digestBytes

end Registry

end Lockstep
