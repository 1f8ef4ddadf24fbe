import Lockstep.Drift.Opinion
import Lockstep.SortedMap

/-! # Arbiters with one ledger for all scopes

What an arbiter remembers, in three tables that all scopes share: the references by scope and tick, the
horizons by scope, and the peers that have been named, each with its scope. Only the keys keep one scope
apart from another.
-/

namespace Lockstep

/-- By scope, and by tick within a scope. -/
instance : Ord (ScopeId × Tick) := lexOrd

/-- Compares the opinions of peers. A history of zero counts as one. -/
structure DriftLedger where
  history : Nat
  references : SortedMap (ScopeId × Tick) DriftOpinion := .empty
  /-- Opinions on earlier ticks of a scope are passed over. -/
  horizons : SortedMap ScopeId Tick := .empty
  diverged : List (ScopeId × PeerId) := []

namespace DriftLedger

def new (history : Nat) : DriftLedger := { history := max history 1 }

instance : Inhabited DriftLedger := ⟨new 1⟩

/-- The ticks of a scope that there are references for. -/
def ticks (ledger : DriftLedger) (scope : ScopeId) : List Tick :=
  (ledger.references.keys.filter (·.1 = scope)).map (·.2)

/-- Keep the references of the latest ticks of a scope. When some go, the earliest tick left is the
horizon. -/
def evict (ledger : DriftLedger) (scope : ScopeId) : DriftLedger :=
  let ticks := ledger.ticks scope
  let excess := ticks.length - ledger.history
  match ticks[excess]? with
  | some first =>
    if excess = 0 then ledger
    else { ledger with
      references := (ticks.take excess).foldl (fun references tick => references.erase (scope, tick))
        ledger.references
      horizons := ledger.horizons.insert scope first }
  | none => ledger

/-- Weigh the opinion of a peer; the answer names a peer that has just diverged. -/
def submit (ledger : DriftLedger) (peer : PeerId) (opinion : DriftOpinion) :
    Option Divergence × DriftLedger :=
  let key := (opinion.scope, opinion.tick)
  if (ledger.horizons.get? opinion.scope).any (opinion.tick < ·) then (none, ledger)
  else match ledger.references.get? key with
    | none =>
      (none, { ledger with references := ledger.references.insert key opinion }.evict opinion.scope)
    | some reference =>
      match reference.firstDifference opinion with
      | none => (none, ledger)
      | some tick =>
        if ledger.diverged.contains (opinion.scope, peer) then (none, ledger)
        else (some ⟨opinion.scope, tick, peer⟩,
          { ledger with diverged := (opinion.scope, peer) :: ledger.diverged })

/-- Forget everything about a scope. -/
def clear (ledger : DriftLedger) (scope : ScopeId) : DriftLedger :=
  { ledger with
    references := ledger.references.filter fun key _ => key.1 != scope
    horizons := ledger.horizons.erase scope
    diverged := ledger.diverged.filter (·.1 != scope) }

end DriftLedger

end Lockstep
