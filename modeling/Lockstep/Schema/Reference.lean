import Lockstep.Format.Bytes
import Lockstep.Ident

/-! # References

Some values stand for things that live in the host: entities, sessions, definitions and scopes. A
resolver says which of them exist for a reader, and an entity may be known to it under another,
canonical reference.
-/

namespace Lockstep

/-- What a reference type refers to. Where a type falls under several categories, the first one of
this order counts. -/
inductive RefCategory where
  | session
  | thing
  | spawned
  | worldObject
  | definition
  deriving DecidableEq, Repr, Inhabited

namespace RefCategory

def name : RefCategory → String
  | session => "session"
  | thing => "thing"
  | spawned => "spawned"
  | worldObject => "world_object"
  | definition => "definition"

/-- The categories in the order in which they count. -/
def all : List RefCategory := [session, thing, spawned, worldObject, definition]

/-- The category of a name. -/
def ofName? (name : String) : Option RefCategory := all.find? (·.name == name)

/-- The category that counts among several. -/
def select (categories : List RefCategory) : Option RefCategory := all.find? (categories.contains ·)

end RefCategory

/-- How an entity is found. -/
inductive EntityRef where
  /-- An entity placed in the world by itself. -/
  | spawned (id : EntityId)
  /-- An entity held by another one. -/
  | nested (parent id : EntityId)
  /-- An entity held in a numbered part of another one. -/
  | inComponent (owner : EntityId) (slot : UInt16) (id : EntityId)
  deriving DecidableEq, Repr

/-- The entity itself, whatever holds it. -/
def EntityRef.id : EntityRef → EntityId
  | spawned id | nested _ id | inComponent _ _ id => id

/-- What exists for a reader, by type name. -/
structure Resolver where
  /-- The canonical reference of an entity, looked up in a scope. -/
  entity : ScopeId → String → EntityRef → Option EntityRef
  session : String → SessionId → Bool
  definition : String → DefinitionId → Bool
  scope : ScopeId → Bool

namespace Resolver

/-- Nothing lives in the host: no entity and no session exists, every definition and scope does. -/
def noEntities : Resolver where
  entity _ _ _ := none
  session _ _ := false
  definition _ _ := true
  scope _ := true

/-- Everything exists and is known under the reference given. -/
def everything : Resolver where
  entity _ _ reference := some reference
  session _ _ := true
  definition _ _ := true
  scope _ := true

end Resolver

end Lockstep
