import Lockstep.Proofs.Format.Reading
import Lockstep.Proofs.Success

/-! # Errors that do not occur

A computation or a decoder spares some errors if it never fails with one of them. What is composed of
parts that spare them spares them too, so it is enough to look at the parts.
-/

namespace Lockstep

/-- A computation fails with none of these errors. -/
def Spares {ε α : Type} (bad : ε → Prop) (computation : Except ε α) : Prop :=
  ∀ error, computation = .error error → ¬bad error

/-- A decoder fails with none of these errors, whatever it reads. -/
def Decoder.Spares {ε α : Type} (bad : ε → Prop) (decoder : Decoder ε α) : Prop :=
  ∀ input error rest, decoder input = .error error rest → ¬bad error

namespace Spares

variable {ε ε' α β : Type} {bad : ε → Prop}

theorem ok (value : α) : Spares bad (.ok value) := nofun

theorem error {error : ε} (good : ¬bad error) : Spares bad (.error error : Except ε α) := by
  intro other same
  cases same
  exact good

/-- What comes after a step is only looked at where the step succeeds. -/
theorem bind_of_ok {first : Except ε α} {next : α → Except ε β} (left : Spares bad first)
    (right : ∀ value, first = .ok value → Spares bad (next value)) : Spares bad (first >>= next) := by
  intro error failed
  rcases bind_eq_error.mp failed with failed | ⟨value, succeeded, failed⟩
  · exact left error failed
  · exact right value succeeded error failed

theorem bind {first : Except ε α} {next : α → Except ε β} (left : Spares bad first)
    (right : ∀ value, Spares bad (next value)) : Spares bad (first >>= next) :=
  left.bind_of_ok fun value _ => right value

/-- Errors of a format are wrapped. -/
theorem mapError {first : Except ε' α} {wrap : ε' → ε} (good : ∀ error, ¬bad (wrap error)) :
    Spares bad (first.mapError wrap) := by
  intro error failed
  obtain ⟨cause, -, rfl⟩ := mapError_eq_error.mp failed
  exact good cause

theorem mapM {step : α → Except ε β} {items : List α} (each : ∀ item ∈ items, Spares bad (step item)) :
    Spares bad (items.mapM step) := by
  induction items with
  | nil => exact ok []
  | cons item items ih =>
    obtain ⟨first, rest⟩ := List.forall_mem_cons.mp each
    rw [List.mapM_cons]
    exact first.bind fun value => (ih rest).bind fun values => ok (value :: values)

end Spares

namespace Decoder.Spares

variable {ε ε' α β : Type} {bad : ε → Prop}

theorem pure (value : α) : Spares bad (Pure.pure value : Decoder ε α) := nofun

theorem throw {error : ε} (good : ¬bad error) : Spares bad (MonadExcept.throw error : Decoder ε α) := by
  intro input other rest same
  cases same
  exact good

theorem bind {first : Decoder ε α} {next : α → Decoder ε β} (left : Spares bad first)
    (right : ∀ value, Spares bad (next value)) : Spares bad (first >>= next) := by
  intro input error rest failed
  change EStateM.bind first next input = _ at failed
  rw [EStateM.bind] at failed
  cases read : first input with
  | ok value middle =>
    rw [read] at failed
    exact right value middle error rest failed
  | error cause middle =>
    rw [read] at failed
    cases failed
    exact left input _ _ read

theorem mapError {first : Decoder ε' α} {wrap : ε' → ε} (good : ∀ error, ¬bad (wrap error)) :
    Spares bad (first.mapError wrap) := by
  intro input error rest failed
  rw [Decoder.mapError] at failed
  split at failed
  · cases failed
  · cases failed
    exact good _

theorem map {first : Decoder ε α} (f : α → β) (left : Spares bad first) : Spares bad (f <$> first) := by
  intro input error rest failed
  change EStateM.map f first input = _ at failed
  rw [EStateM.map] at failed
  cases read : first input with
  | ok value middle =>
    rw [read] at failed
    cases failed
  | error cause middle =>
    rw [read] at failed
    cases failed
    exact left input _ _ read

theorem foldlM {σ : Type} {step : σ → α → Decoder ε σ} {items : List α}
    (each : ∀ item ∈ items, ∀ state, Spares bad (step state item)) (state : σ) :
    Spares bad (items.foldlM step state) := by
  induction items generalizing state with
  | nil => exact pure state
  | cons item items ih =>
    obtain ⟨first, rest⟩ := List.forall_mem_cons.mp each
    rw [List.foldlM_cons]
    exact (first state).bind (ih rest)

theorem replicate {decoder : Decoder ε α} (each : Spares bad decoder) (count : Nat) :
    Spares bad (decoder.replicate count) := by
  have onto (values : List α) : Spares bad (repeatOnto decoder count values) := by
    induction count generalizing values with
    | zero => exact pure values
    | succ count ih => exact each.bind fun value => ih (value :: values)
  exact (onto []).map List.reverse

end Decoder.Spares

end Lockstep
