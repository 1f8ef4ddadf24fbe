import Lockstep.Reported

/-! # Configuration

The settings of a peer, and which of them are refused.
-/

namespace Lockstep

/-- How long an edited field waits before its change is sent. -/
inductive FlushInterval where
  | millis (count : UInt64)
  | ticks (count : UInt32)
  deriving DecidableEq, Repr

/-- The settings of a peer. -/
structure SyncConfig where
  seed : UInt64 := 0
  flushInterval : FlushInterval := .millis 200
  driftSampleCapacity : Nat := 256
  driftExchangeInterval : UInt32 := 30
  driftHistory : Nat := 16
  maxInboundQueue : Nat := 4096
  debugMode : Bool := false
  schedulingDelay : UInt32 := 2
  deriving DecidableEq, Repr, Inhabited

/-- A setting that is refused. -/
inductive ConfigError where
  | driftCapacityZero
  | driftIntervalZero
  | driftHistoryZero
  | inboundQueueZero
  deriving DecidableEq, Repr

namespace ConfigError

/-- The text shown for a refused setting. -/
def message : ConfigError → String
  | driftCapacityZero => "drift_sample_capacity must be at least 1"
  | driftIntervalZero => "drift_exchange_interval must be at least 1 tick"
  | driftHistoryZero => "drift_history must be at least 1"
  | inboundQueueZero => "max_inbound_queue must be at least 1"

/-- The name of a refused setting in reports. -/
def kind : ConfigError → String
  | driftCapacityZero => "DriftCapacityZero"
  | driftIntervalZero => "DriftIntervalZero"
  | driftHistoryZero => "DriftHistoryZero"
  | inboundQueueZero => "InboundQueueZero"

instance : Reported ConfigError := ⟨ConfigError.kind, ConfigError.message⟩

end ConfigError

/-- Refuse settings under which a peer could not work. -/
def SyncConfig.validate (config : SyncConfig) : Except ConfigError Unit :=
  if config.driftSampleCapacity = 0 then .error .driftCapacityZero
  else if config.driftExchangeInterval = 0 then .error .driftIntervalZero
  else if config.driftHistory = 0 then .error .driftHistoryZero
  else if config.maxInboundQueue = 0 then .error .inboundQueueZero
  else .ok ()

end Lockstep
