import Lockstep.Handler.Ambient

/-! # Look-ups of readers

What a reader makes of its input depends on its resolver only through the look-ups that it makes: those
of entities in its own scope, of world objects in the global one, and of sessions, definitions and
scopes. Resolvers that agree on these are the same to it.
-/

namespace Lockstep

/-- Two resolvers answer a reader for a scope alike. -/
structure Resolver.AlikeFor (registry : Registry) (scope : ScopeId) (first second : Resolver) : Prop where
  entity : first.entity scope = second.entity scope
  worldObject {type : String} : registry.descriptor? type = some (.reference .worldObject) →
    ∀ id, first.entity .global type (.spawned id) = second.entity .global type (.spawned id)
  session : first.session = second.session
  definition : first.definition = second.definition
  scope : first.scope = second.scope

variable {registry : Registry} {scope : ScopeId} {first second : Resolver}

theorem RefCategory.decode_congr (alike : first.AlikeFor registry scope second) {type : String}
    {category : RefCategory} (declared : registry.descriptor? type = some (.reference category)) :
    category.decode first scope type = category.decode second scope type := by
  cases category with
  | session => simp only [decode, alike.session]
  | thing => simp only [decode, alike.entity]
  | spawned => simp only [decode, alike.entity]
  | worldObject => simp only [decode, alike.worldObject declared]
  | definition => simp only [decode, alike.definition]

namespace Registry

theorem decodePlain_congr (alike : first.AlikeFor registry scope second) (parts : ValueDecoder)
    {name : String} {descriptor : Descriptor} (declared : registry.descriptor? name = some descriptor) :
    decodePlain first scope parts name descriptor = decodePlain second scope parts name descriptor := by
  cases descriptor with
  | reference category => exact RefCategory.decode_congr alike declared
  | scope => simp only [decodePlain, alike.scope]
  | _ => rfl

theorem decodeNamed_congr (alike : first.AlikeFor registry scope second) (parts deeper : ValueDecoder)
    (name : String) :
    decodeNamed registry first scope parts deeper name =
      decodeNamed registry second scope parts deeper name := by
  unfold decodeNamed
  split
  next => rfl
  next implementations _ =>
    congr 1
    funext index
    split
    next => rfl
    next =>
      split
      next => rfl
      next concrete _ =>
        split
        next => rfl
        next descriptor declared => rw [decodePlain_congr alike deeper declared]
  next descriptor _ declared => exact decodePlain_congr alike parts declared

theorem decodeLevel_congr (alike : first.AlikeFor registry scope second) (below deeper : ValueDecoder)
    (type : Ty) :
    decodeLevel registry first scope below deeper type =
      decodeLevel registry second scope below deeper type := by
  cases type with
  | named name => exact decodeNamed_congr alike below deeper name
  | _ => rfl

theorem decodeWithin_congr (alike : first.AlikeFor registry scope second) :
    ∀ levels, decodeWithin registry first scope levels = decodeWithin registry second scope levels
  | 0 => rfl
  | 1 => funext (decodeLevel_congr alike refuse refuse)
  | levels + 2 => by
    rw [decodeWithin, decodeWithin, decodeWithin_congr alike (levels + 1), decodeWithin_congr alike levels]
    exact funext (decodeLevel_congr alike _ _)

theorem decode_congr {context : WireContext} (alike : first.AlikeFor registry context.lookupScope second) :
    registry.decode first context = registry.decode second context :=
  funext fun type => congrFun (decodeWithin_congr alike _) type

end Registry

theorem Ambient.decode_congr {context : WireContext}
    (alike : first.AlikeFor registry context.lookupScope second) (flags : ContextFlags) (selectionType : Ty) :
    Ambient.decode registry first context flags selectionType =
      Ambient.decode registry second context flags selectionType := by
  simp only [Ambient.decode, Registry.decode_congr alike]

end Lockstep
