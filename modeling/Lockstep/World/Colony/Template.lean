import Lockstep.Cluster
import Lockstep.World.Colony.Handlers

/-! # Peers of colonies

Peers whose scopes are the maps of a colony.
-/

namespace Lockstep.Colony

/-- Peers that start from a colony, with a scope for every map. -/
def template (config : SyncConfig) (colony : Colony) : Template Colony where
  config := config
  table := table
  world := colony
  scopes := colony.maps.keys

/-- Peers with many maps and workers, whose opinions go out once in sixty ticks. -/
def crowdedTemplate (seed : UInt64) (maps workers : Nat) : Template Colony :=
  template { seed, driftExchangeInterval := 60 } (crowded maps workers)

end Lockstep.Colony
