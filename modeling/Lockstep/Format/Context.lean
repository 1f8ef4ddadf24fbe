import Lockstep.Ident

/-! # What surrounds a message

A message is written and read for a scope, by a handler, at a tick. Each part may be unknown.
-/

namespace Lockstep

/-- The scope, handler and tick of the message at hand, as far as they are known. -/
structure WireContext where
  scope : Option ScopeId := none
  handler : Option HandlerId := none
  tick : Option Tick := none
  deriving DecidableEq, Repr, Inhabited

namespace WireContext

def ofScope (scope : ScopeId) : WireContext := { scope := some scope }

def withHandler (context : WireContext) (handler : HandlerId) : WireContext :=
  { context with handler := some handler }

def withTick (context : WireContext) (tick : Tick) : WireContext := { context with tick := some tick }

/-- The scope in which references are looked up: without a scope, the global one. -/
def lookupScope (context : WireContext) : ScopeId := context.scope.getD .global

end WireContext

end Lockstep
