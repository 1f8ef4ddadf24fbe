import Lockstep.Schema.Reference

/-! # Directories

A directory lists what exists for a reader; its resolver knows what is listed and nothing else.
-/

namespace Lockstep

/-- The things of a sort that exist. -/
inductive Listing (α : Type) where
  | all
  | only (items : List α)
  deriving Repr

def Listing.contains {α : Type} [BEq α] : Listing α → α → Bool
  | all, _ => true
  | only items, item => items.contains item

/-- An entity that exists in a scope, for references of one type or, if the type is given as `*`, of all. -/
structure DirectoryEntity where
  scope : ScopeId
  type : String
  reference : EntityRef
  /-- The reference under which the entity is known, where it is another one. -/
  canonical? : Option EntityRef := none
  deriving Repr

namespace DirectoryEntity

/-- Whether the entry is about a reference. -/
def isFor (entity : DirectoryEntity) (scope : ScopeId) (type : String) (reference : EntityRef) : Bool :=
  entity.scope == scope && (entity.type == "*" || entity.type == type) && entity.reference == reference

/-- The reference under which the entity is known. -/
def canonical (entity : DirectoryEntity) : EntityRef := entity.canonical?.getD entity.reference

end DirectoryEntity

/-- A list of what exists. -/
structure Directory where
  entities : List DirectoryEntity := []
  sessions : List (String × SessionId) := []
  definitions : Listing (String × DefinitionId) := .only []
  scopes : Listing ScopeId := .only []
  deriving Repr, Inhabited

/-- The resolver that knows what a directory lists. Of several entries for one reference the first
one counts. -/
def Directory.resolver (directory : Directory) : Resolver where
  entity scope type reference :=
    (directory.entities.find? (·.isFor scope type reference)).map (·.canonical)
  session type id := directory.sessions.contains (type, id)
  definition type id := directory.definitions.contains (type, id)
  scope scope := directory.scopes.contains scope

end Lockstep
