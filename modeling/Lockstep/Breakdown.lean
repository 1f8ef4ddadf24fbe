import Lockstep.Reported

/-! # Breakdowns

A program breaks down where it has no answer left to give: a count outgrows its word, a place does not
exist, or more memory is asked for than can be addressed. A breakdown may leave a message.
-/

namespace Lockstep

/-- The end of a program short of an answer, with its message if it left one. -/
structure Breakdown where
  message : Option String
  deriving DecidableEq, Repr

namespace Breakdown

/-- What reports show for a breakdown. -/
def report (breakdown : Breakdown) : String := breakdown.message.getD "non-string"

instance : Reported Breakdown := ⟨fun _ => "Panic", report⟩

/-- A sum does not fit into its word. -/
def sumOverflow : Breakdown := ⟨some "attempt to add with overflow"⟩

/-- An inbox has more slots than can be counted. -/
def tooManySlots : Breakdown := ⟨some "bounded channel capacity is too large"⟩

/-- Memory of this size cannot be addressed. -/
def memoryOverflow : Breakdown := ⟨some "capacity overflow"⟩

/-- A list has no such place. -/
def noPlace (length place : Nat) : Breakdown :=
  ⟨some s!"index out of bounds: the len is {length} but the index is {place}"⟩

end Breakdown

/-- Set memory aside for a number of items of a size in bytes. Half of the 64-bit addresses are usable. -/
def reserve (count size : Nat) : Except Breakdown Unit :=
  if count * size < UInt64.size / 2 then .ok () else .error .memoryOverflow

end Lockstep
