import Lockstep.Reported

/-! # What can be wrong with bytes

The causes for which bytes cannot be written or read, their wording, and their names in reports. An
error that only passes on another one joins the two names with a dot.
-/

namespace Lockstep

/-- Why bytes could not be written or read. -/
inductive FormatError where
  /-- A read asked for more bytes than are left. -/
  | truncated (needed remaining : Nat)
  /-- A length is above what its field or the format allows. -/
  | lengthOverflow (length limit : Nat)
  /-- A text is not well-formed. -/
  | invalidText
  /-- A truth value is neither 0 nor 1. -/
  | invalidBool (byte : UInt8)
  /-- A word stands for no scope. -/
  | invalidScope (raw : Int32)
  /-- Bytes are left after a complete value. -/
  | trailingBytes (count : Nat)
  deriving DecidableEq, Repr

/-- The text shown for an error. -/
def FormatError.message : FormatError → String
  | truncated needed remaining => s!"truncated: needed {needed} bytes, {remaining} remaining"
  | lengthOverflow length limit => s!"length {length} exceeds maximum {limit}"
  | invalidText => "invalid UTF-8 string"
  | invalidBool byte => "invalid bool byte " ++ toString byte.toNat
  | invalidScope raw => "invalid scope id " ++ toString raw.toInt
  | trailingBytes count => s!"{count} trailing bytes after payload"

/-- The name of an error in reports. -/
def FormatError.kind : FormatError → String
  | truncated _ _ => "Truncated"
  | lengthOverflow _ _ => "LengthOverflow"
  | invalidText => "InvalidUtf8"
  | invalidBool _ => "InvalidBool"
  | invalidScope _ => "InvalidScope"
  | trailingBytes _ => "TrailingBytes"

instance : Reported FormatError := ⟨FormatError.kind, FormatError.message⟩

end Lockstep
