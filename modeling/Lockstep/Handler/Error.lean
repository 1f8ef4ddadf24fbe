import Lockstep.Command.Basic
import Lockstep.Ident
import Lockstep.Schema.Error

/-! # What can be wrong with handlers and commands

The causes for which handlers are refused, a command is not captured, and a command fails when it runs;
their wording, and their names in reports.
-/

namespace Lockstep

/-- Why handlers are refused. -/
inductive RegistrationError where
  | duplicateName (name : String)
  | unknownType (handler : String) (source : EncodeError)
  | noSelectionType (handler : String)
  | tooManyHandlers (count : Nat)
  deriving DecidableEq, Repr

namespace RegistrationError

/-- The text shown for refused handlers. -/
def message : RegistrationError → String
  | duplicateName name => "handler '" ++ name ++ "' registered twice"
  | unknownType handler source => "handler '" ++ handler ++ "' uses an unregistered type: " ++ source.message
  | noSelectionType handler =>
    "handler '" ++ handler ++ "' captures the selection but the table has no selection type"
  | tooManyHandlers count => s!"too many handlers: {count}"

/-- The name of an error in reports. -/
def kind : RegistrationError → String
  | duplicateName _ => "DuplicateName"
  | unknownType _ _ => "UnknownType"
  | noSelectionType _ => "NoSelectionType"
  | tooManyHandlers _ => "TooManyHandlers"

instance : Reported RegistrationError := ⟨RegistrationError.kind, RegistrationError.message⟩

end RegistrationError

/-- Why a command is not captured. -/
inductive CaptureError where
  | encode (handler : String) (source : EncodeError)
  | debugDisabled (handler : String)
  | wrongHandlerKind (id : HandlerId) (expected : String)
  | argumentCount (handler : String) (expected found : Nat)
  | missingClosurePath (handler path : String)
  deriving DecidableEq, Repr

namespace CaptureError

/-- The text shown for a command that is not captured. -/
def message : CaptureError → String
  | encode handler source => "encoding failed for '" ++ handler ++ "': " ++ source.message
  | debugDisabled handler => "handler '" ++ handler ++ "' is debug-only"
  | wrongHandlerKind id expected =>
    "handler id " ++ toString id.toNat ++ " is not a " ++ expected ++ " handler in this table"
  | argumentCount handler expected found =>
    "handler '" ++ handler ++ "' takes " ++ toString expected ++ " arguments, got " ++ toString found
  | missingClosurePath handler path =>
    "closure '" ++ handler ++ "' is missing captured path '" ++ path ++ "'"

/-- The name of an error in reports. -/
def kind : CaptureError → String
  | encode _ _ => "Encode"
  | debugDisabled _ => "DebugDisabled"
  | wrongHandlerKind _ _ => "WrongHandlerKind"
  | argumentCount _ _ _ => "ArgumentCount"
  | missingClosurePath _ _ => "MissingClosurePath"

instance : Reported CaptureError := ⟨CaptureError.kind, CaptureError.message⟩

end CaptureError

/-- Why a command failed when it ran. -/
inductive CommandError where
  | unknownHandler (id : HandlerId)
  | decode (handler : String) (source : DecodeError)
  | trailingBytes (handler : String) (count : Nat)
  | invoke (handler : String) (source : InvokeError)
  | brokeDown (handler message : String)
  deriving DecidableEq, Repr

namespace CommandError

/-- The text shown for a command that failed. -/
def message : CommandError → String
  | unknownHandler id => "unknown handler id " ++ toString id.toNat
  | decode handler source => "'" ++ handler ++ "' payload did not decode: " ++ source.message
  | trailingBytes handler count => "'" ++ handler ++ "' payload has " ++ toString count ++ " trailing bytes"
  | invoke handler source => "'" ++ handler ++ "' failed: " ++ source.message
  | brokeDown handler message => "'" ++ handler ++ "' panicked: " ++ message

/-- The name of an error in reports. -/
def kind : CommandError → String
  | unknownHandler _ => "UnknownHandler"
  | decode _ _ => "Decode"
  | trailingBytes _ _ => "TrailingBytes"
  | invoke _ _ => "Invoke"
  | brokeDown _ _ => "Panicked"

instance : Reported CommandError := ⟨CommandError.kind, CommandError.message⟩

end CommandError

end Lockstep
