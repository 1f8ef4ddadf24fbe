import Lockstep.Format.Scalar

/-! # Types of synchronised data

A type is the unit type, a scalar kind, or the name of a declared type, wrapped in any number of list
and nullable layers. A type therefore mentions at most one name.
-/

namespace Lockstep

/-- The name of the built-in type of scope references. -/
def scopeTypeName : String := "Scope"

/-- The type of a piece of synchronised data. -/
inductive Ty where
  | unit
  | scalar (kind : ScalarKind)
  | named (name : String)
  | list (element : Ty)
  | nullable (inner : Ty)
  deriving DecidableEq, Repr, Inhabited

namespace Ty

/-- The type of scope references. -/
def scope : Ty := .named scopeTypeName

/-- How a type is written in messages and digests. -/
def display : Ty → String
  | unit => "()"
  | scalar kind => kind.name
  | named name => name
  | list element => "[" ++ element.display ++ "]"
  | nullable inner => inner.display ++ "?"

/-- The declared type that a type mentions. -/
def name? : Ty → Option String
  | unit | scalar _ => none
  | named name => some name
  | list element => element.name?
  | nullable inner => inner.name?

def isNullable : Ty → Bool
  | nullable _ => true
  | _ => false

end Ty

end Lockstep
