import Mathlib.Data.List.Basic
import Mathlib.Data.List.Nodup

/-! # Association lists

What is found under a key in a list of keys and values, where no key is listed twice: registries keep
their declarations so, and buffers their changes.
-/

namespace Lockstep

variable {α β γ : Type} {entries : List (α × β)} {key : α}

section Keys

variable [BEq α] [LawfulBEq α]

theorem lookup_eq_none_iff : entries.lookup key = none ↔ key ∉ entries.map (·.1) := by
  rw [List.lookup_eq_none_iff, List.mem_map]
  constructor
  · rintro absent ⟨entry, member, rfl⟩
    exact bne_iff_ne.mp (absent entry member) rfl
  · intro absent entry member
    exact bne_iff_ne.mpr fun same => absent ⟨entry, member, same.symm⟩

/-- Of keys that are listed once, each is found. -/
theorem lookup_eq_some_iff (distinct : (entries.map (·.1)).Nodup) {value : β} :
    entries.lookup key = some value ↔ (key, value) ∈ entries := by
  induction entries with
  | nil => simp
  | cons entry rest ih =>
    obtain ⟨fresh, distinct⟩ := List.nodup_cons.mp distinct
    rw [List.lookup_cons, List.mem_cons]
    by_cases same : key = entry.1
    · subst same
      have absent : (entry.1, value) ∉ rest := fun member =>
        fresh (List.mem_map.mpr ⟨_, member, rfl⟩)
      simp [absent, Prod.ext_iff, eq_comm]
    · have other : (key, value) ≠ entry := fun equal => same (congrArg Prod.fst equal)
      rw [beq_eq_false_iff_ne.mpr same, ih distinct]
      simp [other]

/-- Changing values changes what is found. -/
theorem lookup_map (f : α → β → γ) (entries : List (α × β)) (key : α) :
    (entries.map fun entry => (entry.1, f entry.1 entry.2)).lookup key =
      (entries.lookup key).map (f key) := by
  induction entries with
  | nil => rfl
  | cons entry rest ih =>
    rw [List.map_cons, List.lookup_cons, List.lookup_cons, ih]
    by_cases same : key = entry.1
    · subst same
      simp
    · rw [beq_eq_false_iff_ne.mpr same]

/-- Looking up among entries that have been changed or dropped. -/
theorem lookup_filterMap (f : α → β → Option γ) (distinct : (entries.map (·.1)).Nodup) (key : α) :
    (entries.filterMap fun entry => (f entry.1 entry.2).map (entry.1, ·)).lookup key =
      (entries.lookup key).bind (f key) := by
  induction entries with
  | nil => rfl
  | cons entry rest ih =>
    obtain ⟨fresh, distinct⟩ := List.nodup_cons.mp distinct
    rw [List.lookup_cons]
    by_cases same : key = entry.1
    · subst same
      rw [beq_self_eq_true]
      cases kept : f entry.1 entry.2 with
      | some value => simp [kept]
      | none =>
        have behind := ih distinct
        rw [lookup_eq_none_iff.mpr fresh] at behind
        simpa [kept] using behind
    · rw [beq_eq_false_iff_ne.mpr same]
      cases kept : f entry.1 entry.2 with
      | some value => simpa [kept, List.lookup_cons, beq_eq_false_iff_ne.mpr same] using ih distinct
      | none => simpa [kept] using ih distinct

end Keys

theorem keys_filterMap (f : α → β → Option γ) (entries : List (α × β)) :
    ((entries.filterMap fun entry => (f entry.1 entry.2).map (entry.1, ·)).map (·.1)).Sublist
      (entries.map (·.1)) := by
  induction entries with
  | nil => exact .slnil
  | cons entry rest ih =>
    cases kept : f entry.1 entry.2 with
    | some value => simpa [kept] using ih
    | none => simpa [kept] using ih.cons entry.1

/-- What is made of the entries under one key is made of the one that is found. -/
theorem filterMap_ite_key [DecidableEq α] (f : β → Option γ) (distinct : (entries.map (·.1)).Nodup)
    (key : α) : (entries.filterMap fun entry => if entry.1 = key then f entry.2 else none) =
      ((entries.lookup key).bind f).toList := by
  induction entries with
  | nil => rfl
  | cons entry rest ih =>
    obtain ⟨fresh, distinct⟩ := List.nodup_cons.mp distinct
    have behind := ih distinct
    by_cases same : key = entry.1
    · subst same
      rw [lookup_eq_none_iff.mpr fresh] at behind
      rw [List.lookup_cons_self, List.filterMap_cons, if_pos rfl, behind, Option.bind_some]
      cases f entry.2 <;> rfl
    · rw [List.lookup_cons, beq_eq_false_iff_ne.mpr same, List.filterMap_cons,
        if_neg (Ne.symm same), behind]

end Lockstep
