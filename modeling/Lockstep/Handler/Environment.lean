import Lockstep.Schema.Value
import Lockstep.SortedMap

/-! # Environments of closures

A closure is captured with the values of its variables. Its shape lists the variables by path, in the
order in which they travel; a variable that is itself a shape is flattened into its parts.
-/

namespace Lockstep

/-- The variables of a closure, by path. -/
structure ClosureShape where
  name : String
  fields : List (String × Ty)
  deriving Repr

namespace ClosureShape

def empty (name : String) : ClosureShape := ⟨name, []⟩

/-- Add a variable. -/
def field (shape : ClosureShape) (path : String) (type : Ty) : ClosureShape :=
  { shape with fields := shape.fields ++ [(path, type)] }

/-- Add the variables of another shape, below a path. -/
def nested (shape : ClosureShape) (path : String) (inner : ClosureShape) : ClosureShape :=
  { shape with fields := shape.fields ++ inner.fields.map fun entry => (path ++ "." ++ entry.1, entry.2) }

end ClosureShape

/-- Values of variables, by path. -/
abbrev Environment := SortedMap String Value

/-- Equality of environments: the same variables with equal values. -/
def Environment.equal (first second : Environment) : Bool :=
  first.keys == second.keys && Value.equalAll first.values second.values

end Lockstep
