import Lockstep.Handler.Error
import Lockstep.Handler.Host

/-! # What can be wrong with watches

The causes for which a watch does not open or close as asked, their wording, and their names in reports.
-/

namespace Lockstep

/-- Why a watch did not open, or did not close as the innermost one. -/
inductive WatchError where
  /-- Watches opened later were still open, and have been closed too. -/
  | crossed (innermost found : Nat)
  | closed (serial : Nat)
  | capture (error : CaptureError)
  /-- The host refused to take a value back. -/
  | rollback (handler : String) (source : InvokeError)
  /-- The host broke down on taking a value back. -/
  | brokeDown (breakdown : Breakdown)
  deriving DecidableEq, Repr

namespace WatchError

/-- The text shown for a watch that went wrong. -/
def message : WatchError → String
  | crossed innermost found => s!"watch {found} closed while watch {innermost} is still open"
  | closed serial => s!"watch {serial} was already closed"
  | capture error => error.message
  | rollback handler source => "rolling back '" ++ handler ++ "' failed: " ++ source.message
  | brokeDown breakdown => breakdown.report

/-- The name of an error in reports. -/
def kind : WatchError → String
  | crossed _ _ => "Crossed"
  | closed _ => "Closed"
  | capture error => "Capture." ++ error.kind
  | rollback _ _ => "Rollback"
  | brokeDown _ => "Panic"

instance : Reported WatchError := ⟨WatchError.kind, WatchError.message⟩

end WatchError

end Lockstep
