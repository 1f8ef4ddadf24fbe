/-! # Reported errors

Errors are values that tell their cause. A report names the cause and says it in a text.
-/

namespace Lockstep

/-- Errors that reports show by a name and a text. -/
class Reported (ε : Type) where
  kind : ε → String
  message : ε → String

end Lockstep
