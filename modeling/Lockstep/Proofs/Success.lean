/-! # Steps that succeed

What it takes for a computation that may fail to come to a value, one lemma for each way to build
one; and, where it matters, what it takes to fail.
-/

namespace Lockstep

variable {ε ε' α β : Type}

theorem bind_eq_ok {first : Except ε α} {next : α → Except ε β} {result : β} :
    first >>= next = .ok result ↔ ∃ value, first = .ok value ∧ next value = .ok result := by
  constructor
  · intro succeeded
    cases first with
    | error error => cases succeeded
    | ok value => exact ⟨value, rfl, succeeded⟩
  · rintro ⟨value, rfl, succeeded⟩
    exact succeeded

theorem mapError_eq_ok {first : Except ε α} {f : ε → ε'} {result : α} :
    first.mapError f = .ok result ↔ first = .ok result := by
  constructor
  · intro succeeded
    cases first with
    | error error => cases succeeded
    | ok value => exact congrArg _ (Except.ok.inj succeeded)
  · rintro rfl
    rfl

theorem bind_eq_error {first : Except ε α} {next : α → Except ε β} {error : ε} :
    first >>= next = .error error ↔
      first = .error error ∨ ∃ value, first = .ok value ∧ next value = .error error := by
  constructor
  · intro failed
    cases first with
    | error other => exact .inl (congrArg _ (Except.error.inj failed))
    | ok value => exact .inr ⟨value, rfl, failed⟩
  · rintro (rfl | ⟨value, rfl, failed⟩)
    · rfl
    · exact failed

theorem mapError_eq_error {first : Except ε α} {f : ε → ε'} {error : ε'} :
    first.mapError f = .error error ↔ ∃ cause, first = .error cause ∧ f cause = error := by
  constructor
  · intro failed
    cases first with
    | error cause => exact ⟨cause, rfl, Except.error.inj failed⟩
    | ok value => cases failed
  · rintro ⟨cause, rfl, rfl⟩
    rfl

/-- Only what a computation comes to goes into the next one. -/
theorem bind_congr_ok {first : Except ε α} {left right : α → Except ε β}
    (same : ∀ value, first = .ok value → left value = right value) : first >>= left = first >>= right := by
  cases first with
  | error error => rfl
  | ok value => exact same value rfl

/-- A computation behind a check. -/
theorem guard_eq_ok {condition : Prop} [Decidable condition] {first : Except ε α} {error : ε}
    {result : α} :
    (if condition then first else .error error) = .ok result ↔ condition ∧ first = .ok result := by
  by_cases holds : condition
  · rw [if_pos holds]
    exact ⟨fun rest => ⟨holds, rest⟩, And.right⟩
  · rw [if_neg holds]
    exact ⟨nofun, fun ⟨impossible, _⟩ => absurd impossible holds⟩

/-! ## Over lists -/

/-- What every step keeps, a run of steps keeps. -/
theorem foldlM_keeps {σ : Type} {step : σ → α → Except ε σ} {Kept : σ → Prop}
    (keeps : ∀ {state item after}, Kept state → step state item = .ok after → Kept after)
    {items : List α} :
    ∀ {state after : σ}, Kept state → items.foldlM step state = .ok after → Kept after := by
  induction items with
  | nil =>
    intro state after kept run
    cases run
    exact kept
  | cons item items ih =>
    intro state after kept run
    rw [List.foldlM_cons] at run
    obtain ⟨next, stepped, run⟩ := bind_eq_ok.mp run
    exact ih (keeps kept stepped) run

/-- A check of several items accepts each. -/
theorem forM_eq_ok {check : α → Except ε Unit} {items : List α} :
    items.forM check = .ok () ↔ ∀ item ∈ items, check item = .ok () := by
  induction items with
  | nil => simp [pure, Except.pure]
  | cons item items ih =>
    rw [List.forall_mem_cons, ← ih]
    constructor
    · intro run
      obtain ⟨_, first, rest⟩ := bind_eq_ok.mp run
      exact ⟨first, rest⟩
    · intro ⟨first, rest⟩
      exact bind_eq_ok.mpr ⟨(), first, rest⟩

end Lockstep
