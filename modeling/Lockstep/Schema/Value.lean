import Lockstep.Schema.Reference
import Lockstep.Schema.Type

/-! # Values

The data that handlers get and set. Values of declared types carry the name of their type. Equality of
values is that of their scalars: a NaN makes a value differ from itself.
-/

namespace Lockstep

/-- A piece of synchronised data. -/
inductive Value where
  /-- Nothing there: an absent optional value, or a reference to something that does not exist. -/
  | null
  | unit
  | scalar (value : Scalar)
  | enumeration (type : String) (discriminant : Int64)
  | record (type : String) (fields : List Value)
  | list (items : List Value)
  | entity (type : String) (reference : EntityRef)
  | session (type : String) (id : SessionId)
  | definition (type : String) (id : DefinitionId)
  | scope (scope : ScopeId)
  /-- A value of an interface: one of its implementations, by name, and the value itself. -/
  | object (type : String) (payload : Value)
  deriving Repr, Inhabited

namespace Value

def isNull : Value → Bool
  | null => true
  | _ => false

/-- What a value is called in messages. -/
def describe : Value → String
  | null => "null"
  | unit => "()"
  | scalar value => value.kind.name
  | list _ => "list"
  | scope _ => scopeTypeName
  | enumeration type _ | record type _ | entity type _ | session type _ | definition type _
  | object type _ => type

/-- Equality of values, given that of their scalars. -/
def equalBy (same : Scalar → Scalar → Bool) : Value → Value → Bool
  | null, null => true
  | unit, unit => true
  | scalar x, scalar y => same x y
  | enumeration s d, enumeration t e => s == t && d == e
  | record s xs, record t ys => s == t && equalAll xs ys
  | list xs, list ys => equalAll xs ys
  | entity s r, entity t q => s == t && r == q
  | session s i, session t j => s == t && i == j
  | definition s i, definition t j => s == t && i == j
  | scope s, scope t => s == t
  | object s x, object t y => s == t && equalBy same x y
  | _, _ => false
where
  /-- Equality of lists of values, item by item. -/
  equalAll : List Value → List Value → Bool
    | [], [] => true
    | x :: xs, y :: ys => equalBy same x y && equalAll xs ys
    | _, _ => false

/-- Equality of values. -/
def equal : Value → Value → Bool := equalBy Scalar.equal

/-- Equality of lists of values. -/
def equalAll : List Value → List Value → Bool := equalBy.equalAll Scalar.equal

/-- Whether values are the same down to their bits. A NaN is identical to itself, and the two zeros are not
identical. -/
def identical : Value → Value → Bool := equalBy (· == ·)

/-- Equality of values that may be missing. -/
def equal? : Option Value → Option Value → Bool
  | none, none => true
  | some x, some y => x.equal y
  | _, _ => false

/-- An entity placed in the world by itself. -/
def spawned (type : String) (id : EntityId) : Value := .entity type (.spawned id)

end Value

end Lockstep
