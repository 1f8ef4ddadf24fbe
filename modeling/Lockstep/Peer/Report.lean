import Lockstep.Config
import Lockstep.Handler.Apply
import Lockstep.Journal.Basic

/-! # Reports

What simulating a tick or replaying a journal came to, and why a peer refuses a request.
-/

namespace Lockstep

/-- What became of a command that ran. -/
abbrev CommandOutcome := Except CommandError Applied

/-- What a scope did in one tick. -/
structure TickReport where
  scope : ScopeId
  tick : Tick
  executed : Nat
  skipped : Nat
  failed : Nat
  /-- How many commands were stamped for an earlier tick. -/
  stale : Nat
  failures : List CommandError
  deriving DecidableEq, Repr

namespace TickReport

/-- The report on a tick whose commands came out like this. -/
def ofOutcomes (scope : ScopeId) (tick : Tick) (stale : Nat) (outcomes : List CommandOutcome) :
    TickReport :=
  let failures := outcomes.filterMap fun
    | .error error => some error
    | .ok _ => none
  { scope, tick, stale, failures
    executed := outcomes.countP fun
      | .ok .executed => true
      | _ => false
    skipped := outcomes.countP fun
      | .ok (.skipped _) => true
      | _ => false
    failed := failures.length }

/-- How many commands ran. -/
def total (report : TickReport) : Nat := report.executed + report.skipped + report.failed

end TickReport

/-- What a replay came to: how many ticks matched, and the tick that did not, if there was one. -/
inductive ReplayOutcome where
  | matched (frames : Nat)
  | diverged (tick : Tick) (frames : Nat)
  deriving DecidableEq, Repr

/-- Why a peer refuses a request. -/
inductive PeerError where
  | unknownScope (scope : ScopeId)
  | duplicateScope (scope : ScopeId)
  | journal (error : JournalError)
  deriving DecidableEq, Repr

namespace PeerError

/-- The text shown for a refused request. -/
def message : PeerError → String
  | unknownScope scope => "unknown scope " ++ scope.display
  | duplicateScope scope => "scope " ++ scope.display ++ " already exists"
  | journal error => error.message

/-- The name of an error in reports. -/
def kind : PeerError → String
  | unknownScope _ => "UnknownScope"
  | duplicateScope _ => "DuplicateScope"
  | journal error => "Journal." ++ error.kind

instance : Reported PeerError := ⟨PeerError.kind, PeerError.message⟩

end PeerError

/-- Why a peer could not be set up. -/
inductive SetupError where
  | config (error : ConfigError)
  /-- There is no memory for what the settings ask for. -/
  | brokeDown (breakdown : Breakdown)
  | scope (error : PeerError)
  deriving DecidableEq, Repr

namespace SetupError

/-- The text shown for a peer that could not be set up. -/
def message : SetupError → String
  | config error => error.message
  | brokeDown breakdown => breakdown.report
  | scope error => error.message

/-- The name of an error in reports. -/
def kind : SetupError → String
  | config error => error.kind
  | brokeDown breakdown => Reported.kind breakdown
  | scope error => error.kind

instance : Reported SetupError := ⟨SetupError.kind, SetupError.message⟩

end SetupError

end Lockstep
