/-! # Sliding windows

A window keeps the last items put into it. It is held as two lists, one in order and one reversed, so
that an item is put in and the oldest one dropped at constant cost over a run.
-/

namespace Lockstep

universe u

/-- The last items of a sequence: `front` in order, then `back` from its end. -/
structure Window (α : Type u) where
  front : List α := []
  back : List α := []
  size : Nat := 0
  size_eq : size = front.length + back.length := by rfl

namespace Window

variable {α : Type u}

def empty : Window α := {}

instance : Inhabited (Window α) := ⟨empty⟩

/-- The items, oldest first. -/
def toList (window : Window α) : List α := window.front ++ window.back.reverse

def isEmpty (window : Window α) : Bool := window.size == 0

/-- Put an item in without dropping one. -/
def grow (window : Window α) (item : α) : Window α where
  front := window.front
  back := item :: window.back
  size := window.size + 1
  size_eq := by simp only [window.size_eq, List.length_cons]; omega

/-- Drop the oldest item. -/
def drop (window : Window α) : Window α :=
  match window.front with
  | _ :: front =>
    { front, back := window.back, size := front.length + window.back.length, size_eq := rfl }
  | [] =>
    let front := window.back.reverse.drop 1
    { front, back := [], size := front.length, size_eq := by simp }

/-- Put an item in; a window that holds `capacity` items drops its oldest one first. -/
def push (capacity : Nat) (window : Window α) (item : α) : Window α :=
  if window.size = capacity then window.drop.grow item else window.grow item

@[simp] theorem toList_empty : (empty : Window α).toList = [] := rfl

@[simp] theorem length_toList (window : Window α) : window.toList.length = window.size := by
  simp [toList, window.size_eq]

theorem isEmpty_iff {window : Window α} : window.isEmpty = true ↔ window.toList = [] := by
  rw [isEmpty, beq_iff_eq, ← length_toList, List.length_eq_zero_iff]

@[simp] theorem toList_grow (window : Window α) (item : α) :
    (window.grow item).toList = window.toList ++ [item] := by
  simp [toList, grow]

@[simp] theorem toList_drop (window : Window α) : window.drop.toList = window.toList.drop 1 := by
  unfold drop
  split
  next front same => simp [toList, same]
  next same => simp [toList, same]

end Window

end Lockstep
