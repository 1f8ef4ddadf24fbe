import Lockstep.Proofs.Format.Scalar

/-! # What a reader makes of a value

A reader keeps a value but for its references: each is replaced by what the resolver knows of it,
and an interface value whose payload turns out absent is absent itself. Two measures say which
values a reader takes at all, the length of their longest text and how deep they nest.
-/

namespace Lockstep

/-! ## Measures -/

namespace Value

/-- The length of the longest text or byte string in a value. -/
def longestBlob : Value → Nat
  | scalar value => value.blobLength
  | list items => longestBlobOf items
  | record _ fields => longestBlobOf fields
  | object _ payload => longestBlob payload
  | _ => 0
where
  /-- The length of the longest one in any of several values. -/
  longestBlobOf : List Value → Nat
    | [] => 0
    | value :: values => max (longestBlob value) (longestBlobOf values)

end Value

namespace Ty

/-- How many nullable layers a type has around its core. -/
def layers : Ty → Nat
  | nullable inner => inner.layers + 1
  | _ => 0

/-- The type within all nullable layers. -/
def core : Ty → Ty
  | nullable inner => inner.core
  | type => type

end Ty

namespace Registry

mutual

/-- How many levels below the outermost one a reader goes for a value written at a type. An absent
value needs none, each nullable layer of a present one needs a level, as do the items of a list and
the parts of a record; the parts of a record behind an interface lie one level deeper still. -/
def nesting (registry : Registry) : Value → Ty → Nat
  | .null, _ => 0
  | .list items, type =>
    type.layers + match type.core with
      | .list element => nestingItems registry items element
      | _ => 0
  | .record _ values, type =>
    type.layers + match type.core with
      | .named name =>
        match registry.descriptor? name with
        | some (.record fields) => nestingFields registry values fields
        | _ => 0
      | _ => 0
  | .object concrete payload, type =>
    type.layers + match nesting registry payload (.named concrete) with
      | 0 => 0
      | levels + 1 => levels + 2
  | _, type => type.layers

/-- How many levels the items of a list take. -/
def nestingItems (registry : Registry) : List Value → Ty → Nat
  | [], _ => 0
  | item :: items, element =>
      max (nesting registry item element + 1) (nestingItems registry items element)

/-- How many levels the parts of a record take. -/
def nestingFields (registry : Registry) : List Value → List Field → Nat
  | value :: values, field :: fields =>
    max (nesting registry value field.type + 1) (nestingFields registry values fields)
  | _, _ => 0

end

/-! ## Resolution -/

/-- The scope in which a reader looks up the entities of a type. -/
def entityScope (registry : Registry) (scope : ScopeId) (type : String) : ScopeId :=
  if registry.descriptor? type = some (.reference .worldObject) then .global else scope

/-- The value that a reader makes of a written one. -/
def resolve (registry : Registry) (resolver : Resolver) (scope : ScopeId) : Value → Value
  | .entity type reference =>
    RefCategory.entityValue type (resolver.entity (registry.entityScope scope type) type reference)
  | .session type id => if resolver.session type id then .session type id else .null
  | .definition type id => if resolver.definition type id then .definition type id else .null
  | .scope named => if resolver.scope named then .scope named else .null
  | .record type values => .record type (resolveAll values)
  | .list items => .list (resolveAll items)
  | .object type payload =>
    let payload := resolve registry resolver scope payload
    if payload.isNull then .null else .object type payload
  | value => value
where
  /-- The values that a reader makes of several. -/
  resolveAll : List Value → List Value
    | [] => []
    | value :: values => resolve registry resolver scope value :: resolveAll values

/-- Every reference in a value is known as it stands, and no interface value is without a
payload. -/
def Stands (registry : Registry) (resolver : Resolver) (scope : ScopeId) : Value → Prop
  | .entity type reference => resolver.entity (registry.entityScope scope type) type reference =
      some reference
  | .session type id => resolver.session type id = true
  | .definition type id => resolver.definition type id = true
  | .scope named => resolver.scope named = true
  | .record _ values => AllStand values
  | .list items => AllStand items
  | .object _ payload => payload.isNull = false ∧ Stands registry resolver scope payload
  | _ => True
where
  /-- This holds of each of several values. -/
  AllStand : List Value → Prop
    | [] => True
    | value :: values => Stands registry resolver scope value ∧ AllStand values

variable {registry : Registry} {resolver : Resolver} {scope : ScopeId}

mutual

/-- A reader keeps a value whose references are known as they stand. -/
theorem resolve_eq_self : ∀ {value : Value}, registry.Stands resolver scope value →
    registry.resolve resolver scope value = value
  | .null, _ | .unit, _ | .scalar _, _ | .enumeration _ _, _ => rfl
  | .entity type reference, known => by
    have known :
      resolver.entity (registry.entityScope scope type) type reference = some reference := known
    rw [resolve, known, RefCategory.entityValue]
  | .session _ _, known | .definition _ _, known | .scope _, known => if_pos known
  | .record type _, known => congrArg (Value.record type) (resolveAll_eq_self known)
  | .list _, known => congrArg Value.list (resolveAll_eq_self known)
  | .object type payload, known => by
    obtain ⟨present, known⟩ := known
    rw [resolve, resolve_eq_self known]
    simp only [present, Bool.false_eq_true, if_false]

theorem resolveAll_eq_self :
    ∀ {values : List Value}, Stands.AllStand registry resolver scope values →
    resolve.resolveAll registry resolver scope values = values
  | [], _ => rfl
  | value :: values, known => by
    obtain ⟨first, rest⟩ := known
    rw [resolve.resolveAll, resolve_eq_self first, resolveAll_eq_self rest]

end

end Registry

end Lockstep
