import Lockstep.Proofs.Format.Reading
import Lockstep.Proofs.Schema.Parts

/-! # Equality of values

Identity of values down to their bits is equality. So is the equality that handlers use, up to
floating-point numbers: a NaN is unequal to itself, and the two zeros are equal.
-/

namespace Lockstep

def Scalar.isFloat : Scalar → Bool
  | .f32 _ | .f64 _ => true
  | _ => false

theorem Scalar.equal_iff {scalar : Scalar} (exact : scalar.isFloat = false) (other : Scalar) :
    scalar.equal other = true ↔ scalar = other := by
  cases scalar with
  | f32 _ | f64 _ => cases exact
  | _ => exact beq_iff_eq

theorem Scalar.isFloat_of_isInteger {scalar : Scalar} (integer : scalar.kind.isInteger = true) :
    scalar.isFloat = false := by
  cases scalar with
  | f32 _ | f64 _ => cases integer
  | _ => rfl

/-- Only floating-point kinds are read as floating-point numbers. -/
theorem ScalarKind.isFloat_decode {kind : ScalarKind} {scalar : Scalar} {bytes rest : Bytes}
    (exact : kind ≠ .f32 ∧ kind ≠ .f64) (decoded : kind.decode bytes = .ok scalar rest) :
    scalar.isFloat = false := by
  cases kind with
  | f32 => exact absurd rfl exact.1
  | f64 => exact absurd rfl exact.2
  | _ =>
    obtain ⟨_, _, _, decoded⟩ := Decoder.bind_eq_ok.mp decoded
    obtain ⟨rfl, _⟩ := Decoder.pure_eq_ok.mp decoded
    rfl

namespace Value

/-- Whether a test accepts all scalars in a value. -/
def allScalars (accepts : Scalar → Bool) : Value → Bool
  | scalar value => accepts value
  | list items => everywhere items
  | record _ fields => everywhere fields
  | object _ payload => allScalars accepts payload
  | _ => true
where
  /-- Whether it does so in each of several values. -/
  everywhere : List Value → Bool
    | [] => true
    | value :: values => allScalars accepts value && everywhere values

/-- There is no floating-point number in a value. -/
def isFloatFree (value : Value) : Bool := value.allScalars (!·.isFloat)

variable {same : Scalar → Scalar → Bool} {accepts : Scalar → Bool}

theorem equalAll_iff {values : List Value}
    (each : ∀ value ∈ values, value.allScalars accepts = true →
      ∀ other, equalBy same value other = true ↔ value = other)
    (accepted : allScalars.everywhere accepts values = true) (others : List Value) :
    equalBy.equalAll same values others = true ↔ values = others := by
  induction values generalizing others with
  | nil =>
    cases others with
    | nil => simp [equalBy.equalAll]
    | cons _ _ => simp [equalBy.equalAll]
  | cons value values ih =>
    obtain ⟨first, rest⟩ := Bool.and_eq_true_iff.mp accepted
    cases others with
    | nil => simp [equalBy.equalAll]
    | cons other others =>
      rw [equalBy.equalAll, Bool.and_eq_true, each value List.mem_cons_self first other,
        ih (fun value member => each value (List.mem_cons_of_mem _ member)) rest others,
          List.cons.injEq]

/-- Where equality of scalars is exact, so is equality of values. -/
theorem equalBy_iff
    (exact : ∀ {scalar}, accepts scalar = true → ∀ other, same scalar other = true ↔ scalar = other)
    {value : Value} (accepted : value.allScalars accepts = true) (other : Value) :
    equalBy same value other = true ↔ value = other := by
  induction value using Value.induct generalizing other with
  | step value ih =>
    cases value with
    | list items =>
      have all (others : List Value) : equalBy.equalAll same items others = true ↔ items = others :=
        equalAll_iff ih accepted others
      cases other with
      | list others => rw [equalBy, all, list.injEq]
      | _ => simp [equalBy]
    | record type fields =>
      have all (others : List Value) : equalBy.equalAll same fields others = true ↔
          fields = others :=
        equalAll_iff ih accepted others
      cases other with
      | record type' others => rw [equalBy, Bool.and_eq_true, all, beq_iff_eq, record.injEq]
      | _ => simp [equalBy]
    | object type payload =>
      cases other with
      | object type' payload' =>
        rw [equalBy, Bool.and_eq_true, ih payload (List.mem_singleton_self _) accepted,
          beq_iff_eq, object.injEq]
      | _ => simp [equalBy]
    | scalar scalar =>
      cases other with
      | scalar scalar' => rw [equalBy, exact accepted, Value.scalar.injEq]
      | _ => simp [equalBy]
    | _ => cases other <;> simp [equalBy]

theorem allScalars_true (value : Value) : value.allScalars (fun _ => true) = true := by
  induction value using Value.induct with
  | step value ih =>
    have all {values : List Value} (each : ∀ value ∈ values,
        value.allScalars (fun _ => true) = true) :
        allScalars.everywhere (fun _ => true) values = true := by
      induction values with
      | nil => rfl
      | cons value values ih =>
        obtain ⟨first, rest⟩ := List.forall_mem_cons.mp each
        rw [allScalars.everywhere, first, ih rest]
        rfl
    cases value with
    | list items => exact all ih
    | record type fields => exact all ih
    | object type payload => exact ih payload (List.mem_singleton_self _)
    | _ => rfl

theorem identical_iff {value other : Value} : value.identical other = true ↔ value = other :=
  equalBy_iff (fun _ _ => beq_iff_eq) (allScalars_true value) other

instance : DecidableEq Value := fun _ _ => decidable_of_iff _ identical_iff

/-- Without floating-point numbers, equal values are the same. -/
theorem equal_iff {value : Value} (exact : value.isFloatFree = true) (other : Value) :
    value.equal other = true ↔ value = other :=
  equalBy_iff (fun accepted other => Scalar.equal_iff (by simpa using accepted) other) exact other

end Value

end Lockstep
