import Lockstep.Drift.Opinion
import Lockstep.SortedMap

/-! # Drift arbiters

An arbiter compares the opinions of peers. The first opinion on a tick of a scope is the reference for
that tick; a peer whose opinion differs from the reference has diverged, and is named once. References
are kept for the latest ticks of a scope only, and opinions on ticks before those are passed over.
-/

namespace Lockstep

/-- What an arbiter remembers of one scope. -/
structure ScopeVerdicts where
  references : SortedMap Tick DriftOpinion := .empty
  /-- Opinions on earlier ticks are passed over. -/
  horizon : Option Tick := none
  diverged : List PeerId := []

namespace ScopeVerdicts

instance : Inhabited ScopeVerdicts := ⟨{}⟩

/-- Keep the references of the latest `history` ticks. When some go, the earliest tick left is the
horizon. -/
def evict (history : Nat) (verdicts : ScopeVerdicts) : ScopeVerdicts :=
  let excess := verdicts.references.size - history
  match verdicts.references.keys.drop excess with
  | first :: _ =>
    if excess = 0 then verdicts
    else { verdicts with
      references := verdicts.references.filter fun tick _ => first ≤ tick
      horizon := some first }
  | [] => verdicts

/-- Weigh the opinion of a peer. -/
def submit (history : Nat) (verdicts : ScopeVerdicts) (peer : PeerId) (opinion : DriftOpinion) :
    Option Divergence × ScopeVerdicts :=
  if verdicts.horizon.any (opinion.tick < ·) then (none, verdicts)
  else match verdicts.references.get? opinion.tick with
    | none =>
      (none, evict history { verdicts with
        references := verdicts.references.insert opinion.tick opinion })
    | some reference =>
      match reference.firstDifference opinion with
      | none => (none, verdicts)
      | some tick =>
        if verdicts.diverged.contains peer then (none, verdicts)
        else (some ⟨opinion.scope, tick, peer⟩, { verdicts with diverged := peer :: verdicts.diverged })

end ScopeVerdicts

/-- Compares the opinions of peers, scope by scope. A history of zero counts as one. -/
structure DriftArbiter where
  history : Nat
  scopes : SortedMap ScopeId ScopeVerdicts := .empty

namespace DriftArbiter

def new (history : Nat) : DriftArbiter := { history := max history 1 }

instance : Inhabited DriftArbiter := ⟨new 1⟩

/-- What is remembered of a scope. -/
def verdicts (arbiter : DriftArbiter) (scope : ScopeId) : ScopeVerdicts :=
  (arbiter.scopes.get? scope).getD {}

/-- Weigh the opinion of a peer; the answer names a peer that has just diverged. -/
def submit (arbiter : DriftArbiter) (peer : PeerId) (opinion : DriftOpinion) :
    Option Divergence × DriftArbiter :=
  let (divergence, verdicts) := (arbiter.verdicts opinion.scope).submit arbiter.history peer opinion
  (divergence, { arbiter with scopes := arbiter.scopes.insert opinion.scope verdicts })

/-- Forget everything about a scope. -/
def clear (arbiter : DriftArbiter) (scope : ScopeId) : DriftArbiter :=
  { arbiter with scopes := arbiter.scopes.erase scope }

end DriftArbiter

end Lockstep
