import Lockstep.Ident
import Lockstep.SortedMap

/-! # Sessions

Open sessions by number. Every session belongs to the scope that opened it and ends with it at the
latest. Numbers are given out in order and start again after the last word.
-/

namespace Lockstep

universe u

/-- The open sessions, and the number of the next one. -/
structure SessionRegistry (σ : Type u) where
  sessions : SortedMap SessionId (ScopeId × σ) := .empty
  nextId : SessionId := 0

namespace SessionRegistry

variable {σ : Type u}

instance : Inhabited (SessionRegistry σ) := ⟨{}⟩

/-- Open a session for a scope. -/
def openSession (registry : SessionRegistry σ) (scope : ScopeId) (session : σ) :
    SessionId × SessionRegistry σ :=
  (registry.nextId,
    { sessions := registry.sessions.insert registry.nextId (scope, session), nextId := registry.nextId + 1 })

def get? (registry : SessionRegistry σ) (id : SessionId) : Option σ := (registry.sessions.get? id).map (·.2)

def contains (registry : SessionRegistry σ) (id : SessionId) : Bool := registry.sessions.contains id

/-- The scope that a session belongs to. -/
def scopeOf? (registry : SessionRegistry σ) (id : SessionId) : Option ScopeId :=
  (registry.sessions.get? id).map (·.1)

/-- Change a session in place. -/
def modify (registry : SessionRegistry σ) (id : SessionId) (f : σ → σ) : SessionRegistry σ :=
  { registry with sessions := registry.sessions.modify id fun entry => (entry.1, f entry.2) }

/-- End a session. -/
def close (registry : SessionRegistry σ) (id : SessionId) : Option σ × SessionRegistry σ :=
  (registry.get? id, { registry with sessions := registry.sessions.erase id })

/-- End all sessions of a scope. -/
def closeScope (registry : SessionRegistry σ) (scope : ScopeId) :
    List (SessionId × σ) × SessionRegistry σ :=
  ((registry.sessions.filter fun _ entry => entry.1 == scope).entries.map fun entry => (entry.1, entry.2.2),
    { registry with sessions := registry.sessions.filter fun _ entry => entry.1 != scope })

def size (registry : SessionRegistry σ) : Nat := registry.sessions.size

/-- The open sessions in the order of their numbers. -/
def toList (registry : SessionRegistry σ) : List (SessionId × σ) :=
  registry.sessions.entries.map fun entry => (entry.1, entry.2.2)

end SessionRegistry

end Lockstep
