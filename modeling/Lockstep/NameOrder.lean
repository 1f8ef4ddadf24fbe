/-! # Name order

Sorting by name, one item after another. Items of one name keep their order.

`sortByName_perm` says that nothing is added or lost, `pairwise_sortByName` that names do not fall. Among
items in name order a name is looked up by halving (`searchByName`).
-/

namespace Lockstep

universe u

variable {α : Type u}

/-- Put an item in front of the first one whose name comes later. -/
def insertByName (name : α → String) (item : α) : List α → List α
  | [] => [item]
  | head :: rest => if name item < name head then item :: head :: rest else head :: insertByName name item rest

/-- Bring items into name order. -/
def sortByName (name : α → String) (items : List α) : List α :=
  items.foldl (fun sorted item => insertByName name item sorted) []

/-- The place of a name among those from `low` on and below `high`, which stand in name order. -/
def searchBetween (name : α → String) (items : List α) (sought : String) (low high : Nat) : Option Nat :=
  if low < high then
    let middle := (low + high) / 2
    match items[middle]? with
    | some item =>
      if name item = sought then some middle
      else if name item < sought then searchBetween name items sought (middle + 1) high
      else searchBetween name items sought low middle
    | none => none
  else none
termination_by high - low

/-- The place of a name among items in name order. -/
def searchByName (name : α → String) (items : List α) (sought : String) : Option Nat :=
  searchBetween name items sought 0 items.length

theorem insertByName_perm (name : α → String) (item : α) :
    ∀ items : List α, (insertByName name item items).Perm (item :: items)
  | [] => .refl _
  | head :: rest => by
    rw [insertByName]
    split
    · exact .refl _
    · exact ((insertByName_perm name item rest).cons head).trans (.swap item head rest)

theorem foldl_insertByName_perm (name : α → String) :
    ∀ items sorted : List α,
      (items.foldl (fun sorted item => insertByName name item sorted) sorted).Perm (items ++ sorted)
  | [], _ => .refl _
  | item :: items, sorted =>
    (foldl_insertByName_perm name items _).trans
      (((insertByName_perm name item sorted).append_left items).trans List.perm_middle)

/-- Sorting adds and loses nothing. -/
theorem sortByName_perm (name : α → String) (items : List α) : (sortByName name items).Perm items := by
  simpa [sortByName] using foldl_insertByName_perm name items []

theorem pairwise_insertByName (name : α → String) (item : α) :
    ∀ {items : List α}, (items.Pairwise fun a b => name a ≤ name b) →
      (insertByName name item items).Pairwise fun a b => name a ≤ name b
  | [], _ => by simp [insertByName]
  | head :: rest, h => by
    obtain ⟨least, ascending⟩ := List.pairwise_cons.mp h
    rw [insertByName]
    split
    next before =>
      have before : name item ≤ name head := Std.le_of_lt before
      refine List.pairwise_cons.mpr ⟨fun other member => ?_, h⟩
      rcases List.mem_cons.mp member with rfl | member
      · exact before
      · exact String.le_trans before (least other member)
    next behind =>
      refine List.pairwise_cons.mpr ⟨fun other member => ?_, pairwise_insertByName name item ascending⟩
      rcases List.mem_cons.mp ((insertByName_perm name item rest).mem_iff.mp member) with rfl | member
      · exact String.not_lt.mp behind
      · exact least other member

theorem pairwise_foldl_insertByName (name : α → String) :
    ∀ (items : List α) {sorted : List α}, (sorted.Pairwise fun a b => name a ≤ name b) →
      (items.foldl (fun sorted item => insertByName name item sorted) sorted).Pairwise
        fun a b => name a ≤ name b
  | [], _, h => h
  | item :: items, _, h => pairwise_foldl_insertByName name items (pairwise_insertByName name item h)

/-- After sorting, names do not fall. -/
theorem pairwise_sortByName (name : α → String) (items : List α) :
    (sortByName name items).Pairwise fun a b => name a ≤ name b :=
  pairwise_foldl_insertByName name items .nil

end Lockstep
