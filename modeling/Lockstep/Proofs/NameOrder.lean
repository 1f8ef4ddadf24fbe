import Lockstep.NameOrder
import Mathlib.Data.List.Nodup

/-! # Items in name order

Items of different names have one name order only (`eq_of_nameOrder`). In it an item stands at its rank,
the place that counts the names before its own (`countP_name_lt`), and there halving finds it
(`searchByName_eq_some_iff`).
-/

namespace Lockstep

universe u

variable {α : Type u} {name : α → String} {items others : List α}

/-! ## One order -/

/-- Items of different names can be brought into name order in one way only. -/
theorem eq_of_nameOrder (distinct : (items.map name).Nodup) (perm : items.Perm others)
    (ordered : items.Pairwise fun a b => name a ≤ name b)
    (ordered' : others.Pairwise fun a b => name a ≤ name b) : items = others := by
  refine perm.eq_of_pairwise (fun a b first second le ge => ?_) ordered ordered'
  have member : b ∈ items := perm.mem_iff.mpr second
  exact List.inj_on_of_nodup_map distinct first member (String.le_antisymm le ge)

/-- Sorting items of different names leaves no trace of the order they were in. -/
theorem sortByName_eq_of_perm (name : α → String) (distinct : (items.map name).Nodup)
    (perm : items.Perm others) :
    sortByName name items = sortByName name others := by
  have sorted := sortByName_perm name items
  refine eq_of_nameOrder ((sorted.map name).nodup_iff.mpr distinct) ?_
    (pairwise_sortByName name items) (pairwise_sortByName name others)
  exact (sorted.trans perm).trans (sortByName_perm name others).symm

/-- Where no name comes twice, names that do not fall rise. -/
theorem pairwise_name_lt (distinct : (items.map name).Nodup)
    (ordered : items.Pairwise fun a b => name a ≤ name b) :
    items.Pairwise fun a b => name a < name b := by
  have apart : items.Pairwise fun a b => name a ≠ name b := List.pairwise_map.mp distinct
  refine (ordered.and apart).imp fun ⟨le, ne⟩ => ?_
  exact String.not_le.mp fun ge => ne (String.le_antisymm le ge)

/-! ## Ranks -/

/-- An item stands where as many others are before it as have a lesser name. -/
theorem countP_name_lt (ascending : items.Pairwise fun a b => name a < name b) {place : Nat} {item : α}
    (found : items[place]? = some item) :
    (items.countP fun other => decide (name other < name item)) = place := by
  induction items generalizing place with
  | nil => cases found
  | cons head rest ih =>
    obtain ⟨least, ascending⟩ := List.pairwise_cons.mp ascending
    cases place with
    | zero =>
      obtain rfl := Option.some.inj found
      have greater : (rest.countP fun other => decide (name other < name head)) = 0 :=
        List.countP_eq_zero.mpr fun other member before =>
          String.lt_asymm (least other member) (of_decide_eq_true before)
      rw [List.countP_cons, greater, if_neg (by simp)]
    | succ place =>
      have before : name head < name item := least item (List.mem_of_getElem? found)
      rw [List.countP_cons, ih ascending found, if_pos (decide_eq_true before)]

/-! ## Look-up by halving -/

/-- What halving finds has the name that was sought. -/
theorem getElem?_of_searchBetween {sought : String} {low high place : Nat}
    (found : searchBetween name items sought low high = some place) :
    ∃ item, items[place]? = some item ∧ name item = sought := by
  fun_induction searchBetween name items sought low high with
  | case1 low high inside middle item here same =>
    obtain rfl := Option.some.inj found
    exact ⟨item, here, same⟩
  | case2 low high inside middle item here other before ih => exact ih found
  | case3 low high inside middle item here other behind ih => exact ih found
  | case4 => cases found
  | case5 => cases found

/-- Halving never loses the stretch in which a name stands. -/
theorem searchBetween_eq_some (ascending : items.Pairwise fun a b => name a < name b) {low high place : Nat}
    {item : α} (here : items[place]? = some item) (after : low ≤ place) (before : place < high)
    (inside : high ≤ items.length) :
    searchBetween name items (name item) low high = some place := by
  have order {i j : Nat} {a b : α} (first : items[i]? = some a) (second : items[j]? = some b)
      (lt : i < j) : name a < name b := by
    obtain ⟨inside, rfl⟩ := List.getElem?_eq_some_iff.mp first
    obtain ⟨inside', rfl⟩ := List.getElem?_eq_some_iff.mp second
    exact List.pairwise_iff_getElem.mp ascending i j inside inside' lt
  fun_induction searchBetween name items (name item) low high with
  | case1 low high apart middle found there same =>
    rcases Nat.lt_trichotomy middle place with lt | eq | gt
    · exact absurd (same ▸ order there here lt) (String.lt_irrefl _)
    · exact congrArg some eq
    · exact absurd (same ▸ order here there gt) (String.lt_irrefl _)
  | case2 low high apart middle found there other less ih =>
    refine ih (Nat.lt_of_not_le fun le => ?_) before inside
    rcases Nat.lt_or_eq_of_le le with lt | rfl
    · exact String.lt_asymm less (order here there lt)
    · exact other (congrArg name (Option.some.inj (there.symm.trans here)))
  | case3 low high apart middle found there other less ih =>
    refine ih after (Nat.lt_of_not_le fun le => ?_) (by omega)
    rcases Nat.lt_or_eq_of_le le with lt | rfl
    · exact less (order there here lt)
    · exact other (congrArg name (Option.some.inj (there.symm.trans here)))
  | case4 low high apart middle outside =>
    have := List.getElem?_eq_none_iff.mp outside
    omega
  | case5 low high empty => omega

/-- A name is found exactly at the place where it stands. -/
theorem searchByName_eq_some_iff (ascending : items.Pairwise fun a b => name a < name b) {sought : String}
    {place : Nat} :
    searchByName name items sought = some place ↔
      ∃ item, items[place]? = some item ∧ name item = sought := by
  constructor
  · exact getElem?_of_searchBetween
  · rintro ⟨item, here, rfl⟩
    exact searchBetween_eq_some ascending here (Nat.zero_le _) (List.getElem?_eq_some_iff.mp here).1
      (Nat.le_refl _)

/-- Halving finds what looking at one item after another finds. -/
theorem searchByName_eq_findIdx? (name : α → String)
    (ascending : items.Pairwise fun a b => name a < name b) (sought : String) :
    searchByName name items sought = items.findIdx? fun item => name item == sought := by
  refine Option.ext fun place => ?_
  rw [searchByName_eq_some_iff ascending, List.findIdx?_eq_some_iff_getElem]
  constructor
  · rintro ⟨item, here, rfl⟩
    obtain ⟨inside, rfl⟩ := List.getElem?_eq_some_iff.mp here
    refine ⟨inside, beq_self_eq_true _, fun earlier before same => ?_⟩
    have less := List.pairwise_iff_getElem.mp ascending earlier place (by omega) inside before
    rw [eq_of_beq same] at less
    exact String.lt_irrefl _ less
  · rintro ⟨inside, same, -⟩
    exact ⟨_, List.getElem?_eq_getElem inside, eq_of_beq same⟩

end Lockstep
