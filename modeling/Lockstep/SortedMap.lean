/-! # Maps kept in key order

A finite map as a strictly ascending list of entries. Since the order is part of the type, two maps
with the same entries are equal, and everything read off a map comes out in key order.

Each operation is described through `get?`, such as by `get?_insert_self`, `get?_insert_of_ne` and
`get?_modify_self`; `ext` says that look-ups determine the map.
-/

namespace Lockstep

universe u v w

/-- A finite map whose entries stand in strictly ascending order of their keys. -/
structure SortedMap (κ : Type u) (α : Type v) [Ord κ] where
  entries : List (κ × α)
  sorted : entries.Pairwise fun a b => compare a.1 b.1 = .lt

namespace SortedMap

section Entries

variable {κ : Type u} {α : Type v} [Ord κ]

/-- Put an entry at its place, replacing the one that has an equal key. -/
def insertEntry (key : κ) (value : α) : List (κ × α) → List (κ × α)
  | [] => [(key, value)]
  | entry :: rest =>
    match compare key entry.1 with
    | .lt => (key, value) :: entry :: rest
    | .eq => (key, value) :: rest
    | .gt => entry :: insertEntry key value rest

theorem eq_or_mem_of_mem_insertEntry {key : κ} {value : α} {entry : κ × α} :
    ∀ {entries : List (κ × α)}, entry ∈ insertEntry key value entries →
      entry = (key, value) ∨ entry ∈ entries
  | [], h => by simpa [insertEntry] using h
  | head :: rest, h => by
    rw [insertEntry] at h
    split at h
    · simpa using h
    · rcases List.mem_cons.mp h with rfl | h
      · exact .inl rfl
      · exact .inr (List.mem_cons_of_mem _ h)
    · rcases List.mem_cons.mp h with rfl | h
      · exact .inr List.mem_cons_self
      · exact (eq_or_mem_of_mem_insertEntry h).imp id (List.mem_cons_of_mem _)

theorem pairwise_insertEntry [Std.TransOrd κ] [Std.LawfulEqOrd κ] {key : κ} {value : α} :
    ∀ {entries : List (κ × α)}, (entries.Pairwise fun a b => compare a.1 b.1 = .lt) →
      (insertEntry key value entries).Pairwise fun a b => compare a.1 b.1 = .lt
  | [], _ => by simp [insertEntry]
  | head :: rest, h => by
    obtain ⟨below, ascending⟩ := List.pairwise_cons.mp h
    rw [insertEntry]
    split
    next before =>
      refine List.pairwise_cons.mpr ⟨fun entry member => ?_, h⟩
      rcases List.mem_cons.mp member with rfl | member
      · exact before
      · exact Std.TransCmp.lt_trans before (below entry member)
    next same =>
      obtain rfl : key = head.1 := Std.LawfulEqCmp.eq_of_compare same
      exact List.pairwise_cons.mpr ⟨fun entry member => below entry member, ascending⟩
    next after =>
      refine List.pairwise_cons.mpr ⟨fun entry member => ?_, pairwise_insertEntry ascending⟩
      rcases eq_or_mem_of_mem_insertEntry member with rfl | member
      · exact Std.OrientedCmp.lt_of_gt after
      · exact below entry member

end Entries

variable {κ : Type u} {α : Type v} [Ord κ]

/-- The map without entries. -/
def empty : SortedMap κ α := ⟨[], .nil⟩

instance : Inhabited (SortedMap κ α) := ⟨empty⟩

/-- The value at a key. -/
def get? (map : SortedMap κ α) (key : κ) : Option α :=
  (map.entries.find? fun entry => compare key entry.1 == .eq).map (·.2)

def contains (map : SortedMap κ α) (key : κ) : Bool := (map.get? key).isSome

def keys (map : SortedMap κ α) : List κ := map.entries.map (·.1)

def values (map : SortedMap κ α) : List α := map.entries.map (·.2)

def size (map : SortedMap κ α) : Nat := map.entries.length

/-- The map with this value at this key. -/
def insert [Std.TransOrd κ] [Std.LawfulEqOrd κ] (map : SortedMap κ α) (key : κ) (value : α) :
    SortedMap κ α :=
  ⟨insertEntry key value map.entries, pairwise_insertEntry map.sorted⟩

/-- The entries that a test accepts. -/
def filter (map : SortedMap κ α) (keep : κ → α → Bool) : SortedMap κ α :=
  ⟨map.entries.filter fun entry => keep entry.1 entry.2, map.sorted.filter _⟩

/-- The map without this key. -/
def erase (map : SortedMap κ α) (key : κ) : SortedMap κ α :=
  map.filter fun other _ => compare key other != .eq

/-- Change every value; the keys stay. -/
def mapValues {β : Type w} (f : κ → α → β) (map : SortedMap κ α) : SortedMap κ β :=
  ⟨map.entries.map fun entry => (entry.1, f entry.1 entry.2), List.pairwise_map.mpr map.sorted⟩

/-- Change every value in key order, handing a state along. -/
def mapAccumEntries {β σ : Type w} (f : κ → α → σ → β × σ) : List (κ × α) → σ → List (κ × β) × σ
  | [], state => ([], state)
  | entry :: rest, state =>
    let (value, state) := f entry.1 entry.2 state
    let (rest, state) := mapAccumEntries f rest state
    ((entry.1, value) :: rest, state)

omit [Ord κ] in
theorem keys_mapAccumEntries {β σ : Type w} (f : κ → α → σ → β × σ) :
    ∀ (entries : List (κ × α)) (state : σ),
      (mapAccumEntries f entries state).1.map (·.1) = entries.map (·.1)
  | [], _ => rfl
  | entry :: rest, state => by
    simpa [mapAccumEntries] using keys_mapAccumEntries f rest _

/-- Change every value in key order, handing a state along; the keys stay. -/
def mapAccum {β σ : Type w} (f : κ → α → σ → β × σ) (map : SortedMap κ α) (state : σ) : SortedMap κ β × σ :=
  let changed := mapAccumEntries f map.entries state
  (⟨changed.1, by
    have sorted := map.sorted
    rw [← List.pairwise_map (f := Prod.fst) (R := fun a b => compare a b = .lt)] at sorted ⊢
    rwa [keys_mapAccumEntries]⟩, changed.2)

/-- Change the value at a key, if there is one. -/
def modify (map : SortedMap κ α) (key : κ) (f : α → α) : SortedMap κ α :=
  map.mapValues fun other value => if compare key other == .eq then f value else value

/-- Insert entries one after another; of equal keys the last stays. -/
def ofList [Std.TransOrd κ] [Std.LawfulEqOrd κ] (entries : List (κ × α)) : SortedMap κ α :=
  entries.foldl (fun map entry => map.insert entry.1 entry.2) empty

@[simp] theorem get?_empty (key : κ) : (empty : SortedMap κ α).get? key = none := rfl

/-- A key below every entry has no value. -/
theorem find?_eq_none_of_lt {key : κ} {entries : List (κ × α)}
    (below : ∀ entry ∈ entries, compare key entry.1 = .lt) :
    (entries.find? fun entry => compare key entry.1 == .eq) = none := by
  simp +contextual [below]

section Laws

variable [Std.TransOrd κ] [Std.LawfulEqOrd κ]

@[simp] theorem get?_insert_self (map : SortedMap κ α) (key : κ) (value : α) :
    (map.insert key value).get? key = some value := by
  obtain ⟨entries, sorted⟩ := map
  simp only [get?, insert]
  clear sorted
  induction entries with
  | nil => simp [insertEntry]
  | cons head rest ih =>
    rw [insertEntry]
    split
    · simp
    · simp
    next after => simpa [List.find?_cons, after] using ih

theorem get?_insert_of_ne (map : SortedMap κ α) {key other : κ} (value : α) (ne : other ≠ key) :
    (map.insert key value).get? other = map.get? other := by
  obtain ⟨entries, sorted⟩ := map
  have apart : (compare other key == .eq) = false := by
    simp [Std.LawfulEqCmp.compare_eq_iff_eq, ne]
  simp only [get?, insert]
  clear sorted
  induction entries with
  | nil => simp [insertEntry, apart]
  | cons head rest ih =>
    rw [insertEntry]
    split
    · simp [List.find?_cons, apart]
    next same =>
      obtain rfl : key = head.1 := Std.LawfulEqCmp.eq_of_compare same
      simp [apart]
    · rw [List.find?_cons, List.find?_cons]
      split
      · rfl
      · exact ih

theorem get?_insert_eq_some {map : SortedMap κ α} {key other : κ} {value found : α} :
    (map.insert key value).get? other = some found ↔
      (other = key ∧ value = found) ∨ (other ≠ key ∧ map.get? other = some found) := by
  by_cases same : other = key
  · simp [same]
  · simp [get?_insert_of_ne, same]

theorem entries_ext {first second : List (κ × α)}
    (sorted₁ : first.Pairwise fun a b => compare a.1 b.1 = .lt)
    (sorted₂ : second.Pairwise fun a b => compare a.1 b.1 = .lt)
    (same : ∀ key, ((first.find? fun entry => compare key entry.1 == .eq).map (·.2)) =
      (second.find? fun entry => compare key entry.1 == .eq).map (·.2)) : first = second := by
  induction first generalizing second with
  | nil =>
    cases second with
    | nil => rfl
    | cons head rest => simpa using same head.1
  | cons head rest ih =>
    cases second with
    | nil => simpa using same head.1
    | cons other others =>
      obtain ⟨below₁, ascending₁⟩ := List.pairwise_cons.mp sorted₁
      obtain ⟨below₂, ascending₂⟩ := List.pairwise_cons.mp sorted₂
      have absent {a b : κ × α} {entries : List (κ × α)} (lt : compare a.1 b.1 = .lt)
          (below : ∀ entry ∈ entries, compare b.1 entry.1 = .lt) :
          ((b :: entries).find? fun entry => compare a.1 entry.1 == .eq) = none :=
        find?_eq_none_of_lt fun entry member => by
          rcases List.mem_cons.mp member with rfl | member
          · exact lt
          · exact Std.TransCmp.lt_trans lt (below entry member)
      cases order : compare head.1 other.1 with
      | lt =>
        have found := same head.1
        rw [absent order below₂] at found
        simp at found
      | gt =>
        have found := same other.1
        rw [absent (Std.OrientedCmp.lt_of_gt order) below₁] at found
        simp at found
      | eq =>
        have key : head.1 = other.1 := Std.LawfulEqCmp.eq_of_compare order
        have value : head.2 = other.2 := by simpa [key] using same head.1
        have heads : head = other := Prod.ext key value
        subst heads
        refine congrArg _ (ih ascending₁ ascending₂ fun k => ?_)
        by_cases at_head : k = head.1
        · subst at_head
          rw [find?_eq_none_of_lt below₁, find?_eq_none_of_lt below₂]
        · have apart : (compare k head.1 == .eq) = false := by
            simp [Std.LawfulEqCmp.compare_eq_iff_eq, at_head]
          simpa [List.find?_cons, apart] using same k

/-- Look-ups determine the map. -/
theorem ext {first second : SortedMap κ α} (same : ∀ key, first.get? key = second.get? key) :
    first = second := by
  have entries := entries_ext first.sorted second.sorted same
  cases first
  cases second
  simpa using entries

/-- Of entries with different keys, each is found. -/
theorem get?_ofList [BEq κ] [LawfulBEq κ] {entries : List (κ × α)} (distinct : (entries.map (·.1)).Nodup)
    (key : κ) : (ofList entries).get? key = entries.lookup key := by
  suffices general : ∀ map : SortedMap κ α,
      (entries.foldl (fun map entry => map.insert entry.1 entry.2) map).get? key =
        (entries.lookup key).or (map.get? key) by
    have found := general empty
    rwa [get?_empty, Option.or_none] at found
  induction entries with
  | nil => intro map; rfl
  | cons entry rest ih =>
    intro map
    obtain ⟨fresh, distinct⟩ := List.nodup_cons.mp distinct
    rw [List.foldl_cons, ih distinct, List.lookup_cons]
    by_cases same : key = entry.1
    · subst same
      have absent : rest.lookup entry.1 = none := by
        refine List.lookup_eq_none_iff.mpr fun other member => bne_iff_ne.mpr fun equal => fresh ?_
        exact List.mem_map.mpr ⟨other, member, equal.symm⟩
      simp [absent]
    · rw [get?_insert_of_ne map entry.2 same, beq_eq_false_iff_ne.mpr same]

/-- Of entries whose values depend on their keys, each is found, however often its key occurs. -/
theorem get?_ofList_map [DecidableEq κ] (value : κ → α) (keys : List κ) (key : κ) :
    (ofList (keys.map fun key => (key, value key))).get? key =
      if key ∈ keys then some (value key) else none := by
  suffices general : ∀ map : SortedMap κ α,
      ((keys.map fun key => (key, value key)).foldl (fun map entry => map.insert entry.1 entry.2)
        map).get? key = if key ∈ keys then some (value key) else map.get? key from general empty
  induction keys with
  | nil => intro map; rfl
  | cons first rest ih =>
    intro map
    rw [List.map_cons, List.foldl_cons, ih]
    by_cases same : key = first
    · subst same
      simp
    · simp [same, get?_insert_of_ne map (value first) same]

end Laws

@[simp] theorem get?_erase_self (map : SortedMap κ α) (key : κ) : (map.erase key).get? key = none := by
  simp [get?, erase, filter]

section Lookups

variable [Std.LawfulEqOrd κ]

theorem get?_mapValues {β : Type w} (f : κ → α → β) (map : SortedMap κ α) (key : κ) :
    (map.mapValues f).get? key = (map.get? key).map (f key) := by
  obtain ⟨entries, sorted⟩ := map
  simp only [get?, mapValues]
  clear sorted
  induction entries with
  | nil => rfl
  | cons head rest ih =>
    cases order : compare key head.1 with
    | eq =>
      obtain rfl : key = head.1 := Std.LawfulEqCmp.eq_of_compare order
      simp
    | lt => simpa [List.find?_cons, order] using ih
    | gt => simpa [List.find?_cons, order] using ih

@[simp] theorem get?_modify_self (map : SortedMap κ α) (key : κ) (f : α → α) :
    (map.modify key f).get? key = (map.get? key).map f := by
  simp [modify, get?_mapValues]

theorem get?_modify_of_ne (map : SortedMap κ α) {key other : κ} (f : α → α) (ne : other ≠ key) :
    (map.modify key f).get? other = map.get? other := by
  have apart : (compare key other == .eq) = false := by
    simp [Std.LawfulEqCmp.compare_eq_iff_eq, ne.symm]
  simp [modify, get?_mapValues, apart]

theorem get?_filter (map : SortedMap κ α) (keep : κ → α → Bool) (key : κ) :
    (map.filter keep).get? key = (map.get? key).filter (keep key) := by
  obtain ⟨entries, sorted⟩ := map
  simp only [get?, filter]
  induction entries with
  | nil => rfl
  | cons head rest ih =>
    obtain ⟨below, ascending⟩ := List.pairwise_cons.mp sorted
    specialize ih ascending
    cases order : compare key head.1 with
    | eq =>
      obtain rfl : key = head.1 := Std.LawfulEqCmp.eq_of_compare order
      cases kept : keep head.1 head.2 with
      | true => simp [Option.filter_some, kept]
      | false =>
        have absent : (rest.filter fun entry => keep entry.1 entry.2).find?
            (fun entry => compare head.1 entry.1 == .eq) = none :=
          find?_eq_none_of_lt fun entry member => below entry (List.mem_filter.mp member).1
        simp [Option.filter_some, kept, absent]
    | lt => cases kept : keep head.1 head.2 <;> simpa [List.find?_cons, order, kept] using ih
    | gt => cases kept : keep head.1 head.2 <;> simpa [List.find?_cons, order, kept] using ih

theorem get?_erase_of_ne (map : SortedMap κ α) {key other : κ} (ne : other ≠ key) :
    (map.erase key).get? other = map.get? other := by
  have apart : (compare key other != .eq) = true := by
    simp [Std.LawfulEqCmp.compare_eq_iff_eq, ne.symm]
  rw [erase, get?_filter]
  cases map.get? other <;> simp [apart]

theorem mem_entries_iff {map : SortedMap κ α} {key : κ} {value : α} :
    (key, value) ∈ map.entries ↔ map.get? key = some value := by
  obtain ⟨entries, sorted⟩ := map
  simp only [get?]
  induction entries with
  | nil => simp
  | cons head rest ih =>
    obtain ⟨below, ascending⟩ := List.pairwise_cons.mp sorted
    specialize ih ascending
    by_cases same : key = head.1
    · subst same
      have fresh : (head.1, value) ∉ rest := fun member => by simpa using below _ member
      simp [fresh, Prod.ext_iff, eq_comm]
    · have apart : (compare key head.1 == .eq) = false := by
        simp [Std.LawfulEqCmp.compare_eq_iff_eq, same]
      simpa [Prod.ext_iff, same, List.find?_cons, apart] using ih

theorem mem_keys_iff {map : SortedMap κ α} {key : κ} :
    key ∈ map.keys ↔ ∃ value, map.get? key = some value := by
  simp [keys, ← mem_entries_iff]

/-- No key comes twice. -/
theorem nodup_keys (map : SortedMap κ α) : map.keys.Nodup := by
  refine List.pairwise_map.mpr (map.sorted.imp fun {first second} before same => ?_)
  have alike : compare first.1 second.1 = .eq := same ▸ Std.ReflOrd.compare_self
  cases before.symm.trans alike

end Lookups

@[simp] theorem keys_modify (map : SortedMap κ α) (key : κ) (f : α → α) :
    (map.modify key f).keys = map.keys := by
  simp [keys, modify, mapValues]

section Rewriting

variable [Std.TransOrd κ] [Std.LawfulEqOrd κ]

/-- An entry that is put in hides what was changed at its key. -/
@[simp] theorem insert_modify_self (map : SortedMap κ α) (key : κ) (f : α → α) (value : α) :
    (map.modify key f).insert key value = map.insert key value := by
  refine ext fun other => ?_
  by_cases same : other = key
  · subst same
    simp
  · rw [get?_insert_of_ne _ value same, get?_insert_of_ne _ value same, get?_modify_of_ne map f same]

@[simp] theorem modify_insert_self (map : SortedMap κ α) (key : κ) (f : α → α) (value : α) :
    (map.insert key value).modify key f = map.insert key (f value) := by
  refine ext fun other => ?_
  by_cases same : other = key
  · subst same
    simp
  · rw [get?_modify_of_ne _ f same, get?_insert_of_ne _ _ same, get?_insert_of_ne _ _ same]

/-- Changing one entry and putting in another can be done in either order. -/
theorem insert_modify_of_ne (map : SortedMap κ α) {key other : κ} (f : α → α) (value : α) (ne : other ≠ key) :
    (map.modify other f).insert key value = (map.insert key value).modify other f := by
  refine ext fun third => ?_
  by_cases first : third = key
  · subst first
    rw [get?_insert_self, get?_modify_of_ne _ f ne.symm, get?_insert_self]
  · rw [get?_insert_of_ne _ value first]
    by_cases second : third = other
    · subst second
      rw [get?_modify_self, get?_modify_self, get?_insert_of_ne _ value first]
    · rw [get?_modify_of_ne _ f second, get?_modify_of_ne _ f second, get?_insert_of_ne _ value first]

@[simp] theorem insert_insert_self (map : SortedMap κ α) (key : κ) (first second : α) :
    (map.insert key first).insert key second = map.insert key second := by
  refine ext fun other => ?_
  by_cases same : other = key
  · subst same
    simp
  · simp only [get?_insert_of_ne _ _ same]

/-- Putting in what is there already changes nothing. -/
theorem insert_of_get? {map : SortedMap κ α} {key : κ} {value : α} (found : map.get? key = some value) :
    map.insert key value = map := by
  refine ext fun other => ?_
  by_cases same : other = key
  · subst same
    rw [get?_insert_self, found]
  · rw [get?_insert_of_ne _ _ same]

/-- Taking out what is not there changes nothing. -/
theorem erase_of_get?_eq_none {map : SortedMap κ α} {key : κ} (unknown : map.get? key = none) :
    map.erase key = map := by
  refine ext fun other => ?_
  by_cases same : other = key
  · rw [same, get?_erase_self, unknown]
  · rw [get?_erase_of_ne map same]

end Rewriting

end SortedMap

end Lockstep
