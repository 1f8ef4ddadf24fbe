import Lockstep.Session
import Mathlib.Data.List.Induction
import Mathlib.Data.List.Nodup
import Mathlib.Data.List.Range

/-! # From the opening of a session to its end

What becomes of a session is told by the calls that come after the one that opened it: it is open until a
call ends it, and its contents are what the calls in between have made of them
(`RegistryCall.StandsOpen`). A registry answers by this, as long as the numbers last: the number of the
next session is then none that was given before, so that opening a session takes nothing from the others
(`SessionRegistry.keeps_sessions`).
-/

namespace Lockstep

universe u

/-- What is done with a registry of sessions. Who looks a session up to change it may do with its contents
whatever he likes. -/
inductive RegistryCall (σ : Type u) where
  | start (scope : ScopeId) (session : σ)
  | change (id : SessionId) (f : σ → σ)
  | finish (id : SessionId)
  | finishAll (scope : ScopeId)

namespace SessionRegistry

variable {σ : Type u}

def act (registry : SessionRegistry σ) : RegistryCall σ → SessionRegistry σ
  | .start scope session => (registry.openSession scope session).2
  | .change id f => registry.modify id f
  | .finish id => (registry.close id).2
  | .finishAll scope => (registry.closeScope scope).2

/-- The registry that calls leave behind. -/
def after (calls : List (RegistryCall σ)) : SessionRegistry σ := calls.foldl act {}

/-- The numbers that are given to the sessions that calls open, in order. -/
def numbersFrom (registry : SessionRegistry σ) : List (RegistryCall σ) → List SessionId
  | [] => []
  | .start scope session :: rest =>
    let (id, registry) := registry.openSession scope session
    id :: numbersFrom registry rest
  | call :: rest => numbersFrom (registry.act call) rest

end SessionRegistry

namespace RegistryCall

variable {σ : Type u}

def isStart : RegistryCall σ → Bool
  | start .. => true
  | _ => false

/-- How many sessions are opened. -/
def openings (calls : List (RegistryCall σ)) : Nat := calls.countP isStart

theorem openings_append (first second : List (RegistryCall σ)) :
    openings (first ++ second) = openings first + openings second :=
  List.countP_append

theorem openings_cons_start (scope : ScopeId) (session : σ) (rest : List (RegistryCall σ)) :
    openings (start scope session :: rest) = openings rest + 1 :=
  List.countP_cons_of_pos rfl

/-- The numbers of the sessions that are opened, in order. -/
def numbers (calls : List (RegistryCall σ)) : List SessionId := SessionRegistry.numbersFrom {} calls

/-- Whether a call ends the session of this number, which belongs to this scope. -/
def ends (owner : ScopeId) (id : SessionId) : RegistryCall σ → Bool
  | finish other => other == id
  | finishAll scope => scope == owner
  | _ => false

/-- What a call makes of the contents of a session. -/
def touch (id : SessionId) (content : σ) : RegistryCall σ → σ
  | change other f => if other = id then f content else content
  | _ => content

/-- As the calls tell it, a session is open: it was opened for its owner and got its number then, no later
call has ended it, and the later calls have made its contents what they are. -/
inductive StandsOpen (calls : List (RegistryCall σ)) (id : SessionId) (owner : ScopeId) (content : σ) : Prop
  | intro (before later : List (RegistryCall σ)) (first : σ)
    (told : calls = before ++ start owner first :: later)
    (number : ((SessionRegistry.after before).openSession owner first).1 = id)
    (kept : ∀ call ∈ later, call.ends owner id = false)
    (changed : later.foldl (touch id) first = content)

variable {calls : List (RegistryCall σ)} {call : RegistryCall σ} {id : SessionId} {owner : ScopeId}
  {content : σ}

theorem not_standsOpen_nil : ¬StandsOpen ([] : List (RegistryCall σ)) id owner content := by
  rintro ⟨before, later, first, told, -, -, -⟩
  cases before <;> cases told

/-- After one more call, a session is open if it was open and the call has not ended it, or if the call has
opened it. -/
theorem standsOpen_concat : StandsOpen (calls ++ [call]) id owner content ↔
    (∃ former, StandsOpen calls id owner former ∧ call.ends owner id = false ∧
      touch id former call = content) ∨
      call = start owner content ∧ (SessionRegistry.after calls).nextId = id := by
  constructor
  · rintro ⟨before, later, first, told, number, kept, changed⟩
    rcases List.eq_nil_or_concat later with rfl | ⟨later, last, rfl⟩
    · obtain ⟨rfl, same⟩ := List.append_inj' told rfl
      cases same
      exact .inr ⟨congrArg _ changed, number⟩
    · rw [List.concat_eq_append] at told kept changed
      rw [← List.cons_append, ← List.append_assoc] at told
      obtain ⟨rfl, same⟩ := List.append_inj' told rfl
      cases same
      rw [List.foldl_append] at changed
      exact .inl ⟨_, ⟨before, later, first, rfl, number,
        fun call member => kept call (List.mem_append_left _ member), rfl⟩,
        kept call (List.mem_append_right _ List.mem_cons_self), changed⟩
  · rintro (⟨former, ⟨before, later, first, rfl, number, kept, rfl⟩, spared, rfl⟩ | ⟨rfl, number⟩)
    · refine ⟨before, later ++ [call], first, by rw [List.append_assoc, List.cons_append], number, ?_, ?_⟩
      · simp only [List.mem_append, List.mem_singleton]
        rintro other (member | rfl)
        · exact kept other member
        · exact spared
      · rw [List.foldl_append]
        rfl
    · exact ⟨calls, [], content, rfl, number, fun _ member => absurd member List.not_mem_nil, rfl⟩

end RegistryCall

namespace SessionRegistry

open RegistryCall

variable {σ : Type u} {registry : SessionRegistry σ} {calls : List (RegistryCall σ)} {call : RegistryCall σ}
  {id : SessionId} {owner : ScopeId} {content : σ}

/-! ## One call -/

/-- A registry has a session, with its owner and its contents. -/
def Holds (registry : SessionRegistry σ) (id : SessionId) (owner : ScopeId) (content : σ) : Prop :=
  registry.sessions.get? id = some (owner, content)

theorem get?_eq_some_iff : registry.get? id = some content ↔ ∃ owner, registry.Holds id owner content := by
  simp [get?, Holds]

theorem scopeOf?_eq_some_iff :
    registry.scopeOf? id = some owner ↔ ∃ content, registry.Holds id owner content := by
  simp [scopeOf?, Holds]

theorem contains_iff : registry.contains id = true ↔ ∃ owner content, registry.Holds id owner content := by
  simp [contains, SortedMap.contains, Option.isSome_iff_exists, Holds]

theorem mem_toList_iff : (id, content) ∈ registry.toList ↔ ∃ owner, registry.Holds id owner content := by
  simp [toList, Holds, ← SortedMap.mem_entries_iff]

theorem mem_closeScope_iff {scope : ScopeId} :
    (id, content) ∈ (registry.closeScope scope).1 ↔ registry.Holds id scope content := by
  simp [closeScope, Holds, ← SortedMap.mem_entries_iff, SortedMap.filter]

theorem get?_sessions_closeScope (scope : ScopeId) (id : SessionId) :
    (registry.closeScope scope).2.sessions.get? id =
      (registry.sessions.get? id).filter fun entry => entry.1 != scope :=
  SortedMap.get?_filter _ _ id

/-- What a registry holds after a call is what it held and the call has not ended, and what the call has
opened, if the number for that is free. -/
theorem holds_act (fresh : call.isStart = true → registry.sessions.get? registry.nextId = none) :
    (registry.act call).Holds id owner content ↔
      (∃ former, registry.Holds id owner former ∧ call.ends owner id = false ∧
        touch id former call = content) ∨ call = .start owner content ∧ registry.nextId = id := by
  cases call with
  | start scope session =>
    by_cases new : id = registry.nextId
    · subst new
      simp [Holds, act, openSession, fresh rfl]
    · simp [Holds, act, openSession, SortedMap.get?_insert_of_ne _ _ new, ends, touch, Ne.symm new]
  | change other f =>
    by_cases same : id = other
    · subst same
      simp [Holds, act, modify, ends, touch]
    · simp [Holds, act, modify, SortedMap.get?_modify_of_ne _ _ same, ends, touch, Ne.symm same]
  | finish other =>
    by_cases same : id = other
    · subst same
      simp [Holds, act, close, ends]
    · simp [Holds, act, close, SortedMap.get?_erase_of_ne _ same, ends, touch, Ne.symm same]
  | finishAll scope =>
    simp [Holds, act, get?_sessions_closeScope, Option.filter_eq_some_iff, ends, touch,
      eq_comm (a := scope)]

/-! ## Numbers -/

theorem after_concat (calls : List (RegistryCall σ)) (call : RegistryCall σ) :
    after (calls ++ [call]) = (after calls).act call := by
  rw [after, List.foldl_append]
  rfl

/-- The number of the next session counts those that were opened. -/
theorem nextId_after (calls : List (RegistryCall σ)) :
    (after calls).nextId = UInt32.ofNat (openings calls) := by
  induction calls using List.reverseRecOn with
  | nil => rfl
  | append_singleton calls call ih =>
    rw [after_concat, openings_append]
    cases call with
    | start scope session =>
      exact (congrArg (· + 1) ih).trans (UInt32.ofNat_add (openings calls) 1).symm
    | change id f => exact ih
    | finish id => exact ih
    | finishAll scope => exact ih

theorem numbersFrom_eq (registry : SessionRegistry σ) (calls : List (RegistryCall σ)) :
    numbersFrom registry calls =
      (List.range (openings calls)).map fun place => registry.nextId + UInt32.ofNat place := by
  induction calls generalizing registry with
  | nil => rfl
  | cons call rest ih =>
    cases call with
    | start scope session =>
      have step (place : Nat) : registry.nextId + 1 + UInt32.ofNat place =
          registry.nextId + UInt32.ofNat (place + 1) := by
        rw [UInt32.ofNat_add, UInt32.add_assoc, UInt32.add_comm 1]
        rfl
      change registry.nextId :: numbersFrom (registry.openSession scope session).2 rest = _
      rw [ih, openings_cons_start, List.range_succ_eq_map, List.map_cons, List.map_map]
      refine List.cons_eq_cons.mpr ⟨(UInt32.add_zero _).symm, List.map_congr_left fun place _ => ?_⟩
      exact step place
    | change id f => exact ih _
    | finish id => exact ih _
    | finishAll scope => exact ih _

/-- Counts are told apart by the words for them as long as they are below the number of words. -/
theorem ofNat_injOn {m n : Nat} (below : m < UInt32.size) (below' : n < UInt32.size)
    (same : UInt32.ofNat m = UInt32.ofNat n) : m = n := by
  rw [← UInt32.toNat_ofNat_of_lt' below, same, UInt32.toNat_ofNat_of_lt' below']

theorem nodup_numbers (few : openings calls ≤ UInt32.size) : (numbers calls).Nodup := by
  rw [numbers, numbersFrom_eq]
  refine List.nodup_range.map_on fun first member second member' same => ?_
  rw [List.mem_range] at member member'
  exact ofNat_injOn (Nat.lt_of_lt_of_le member few) (Nat.lt_of_lt_of_le member' few)
    ((UInt32.add_right_inj _).mp same)

/-- While there are numbers left, the next one is not that of a session that is open. -/
theorem not_standsOpen_nextId (few : openings calls < UInt32.size) :
    ¬StandsOpen calls (after calls).nextId owner content := by
  rintro ⟨before, later, first, told, number, -, -⟩
  have fewer : openings before < openings calls := by
    rw [told, openings_append, openings_cons_start]
    omega
  have words : UInt32.ofNat (openings before) = UInt32.ofNat (openings calls) := by
    rw [← nextId_after, ← nextId_after]
    exact number
  exact absurd (ofNat_injOn (fewer.trans few) few words) (Nat.ne_of_lt fewer)

/-- So its place is free, if what the registry holds is what stands open. -/
theorem get?_nextId (few : openings calls < UInt32.size)
    (told : ∀ {owner content}, (after calls).Holds (after calls).nextId owner content →
      StandsOpen calls (after calls).nextId owner content) :
    (after calls).sessions.get? (after calls).nextId = none := by
  apply Option.eq_none_iff_forall_ne_some.mpr
  intro entry found
  exact not_standsOpen_nextId few (told found)

/-! ## All calls -/

/-- As long as the numbers last, a registry holds the sessions that the calls have left open. -/
theorem holds_iff (few : openings calls ≤ UInt32.size) :
    (after calls).Holds id owner content ↔ StandsOpen calls id owner content := by
  induction calls using List.reverseRecOn generalizing id owner content with
  | nil => exact iff_of_false (fun held => by cases held) not_standsOpen_nil
  | append_singleton calls call ih =>
    rw [openings_append] at few
    have known {id : SessionId} {owner : ScopeId} {content : σ} :
        (after calls).Holds id owner content ↔ StandsOpen calls id owner content := ih (by omega)
    have fresh (opens : call.isStart = true) : (after calls).sessions.get? (after calls).nextId = none := by
      have one : openings [call] = 1 := List.countP_cons_of_pos opens
      exact get?_nextId (by omega) known.mp
    rw [after_concat, standsOpen_concat, holds_act fresh]
    simp only [known]

theorem pairwise_keys {α : Type u} (map : SortedMap SessionId α) : map.keys.Pairwise (· < ·) :=
  List.pairwise_map.mpr (map.sorted.imp Std.compare_eq_lt.mp)

/-- What calls can rely on. -/
structure KeepsSessions (calls : List (RegistryCall σ)) : Prop where
  /-- No number is given twice. -/
  numbers : (numbers calls).Nodup
  /-- A session is opened under a number that no open session has, and opening it changes nothing about
  those. -/
  opened {before later : List (RegistryCall σ)} {scope : ScopeId} {session : σ} :
    calls = before ++ .start scope session :: later →
      let (number, registry) := (after before).openSession scope session
      (after before).contains number = false ∧ ∀ id ≠ number,
        registry.get? id = (after before).get? id ∧ registry.scopeOf? id = (after before).scopeOf? id
  /-- A session is found, with its contents, exactly while it is open. -/
  get? {id : SessionId} {content : σ} :
    (after calls).get? id = some content ↔ ∃ owner, StandsOpen calls id owner content
  /-- So is its owner. -/
  scopeOf? {id : SessionId} {owner : ScopeId} :
    (after calls).scopeOf? id = some owner ↔ ∃ content, StandsOpen calls id owner content
  contains {id : SessionId} :
    (after calls).contains id = true ↔ ∃ owner content, StandsOpen calls id owner content
  listed {id : SessionId} {content : σ} :
    (id, content) ∈ (after calls).toList ↔ ∃ owner, StandsOpen calls id owner content
  ascending : ((after calls).toList.map (·.1)).Pairwise (· < ·)
  /-- Ending all sessions of a scope gives back those that are open, in the order of their numbers. -/
  closed {scope : ScopeId} {id : SessionId} {content : σ} :
    (id, content) ∈ ((after calls).closeScope scope).1 ↔ StandsOpen calls id scope content
  inOrder (scope : ScopeId) : (((after calls).closeScope scope).1.map (·.1)).Pairwise (· < ·)
  /-- The others are left as they are. -/
  left (scope : ScopeId) (id : SessionId) :
    ((after calls).closeScope scope).2.sessions.get? id =
      if (after calls).scopeOf? id = some scope then none else (after calls).sessions.get? id

/-- Up to as many openings as there are numbers, a registry keeps every session from the call that opens it to
the one that ends it, and mixes up none of them. -/
theorem keeps_sessions (few : openings calls ≤ UInt32.size) : KeepsSessions calls where
  numbers := nodup_numbers few
  opened := by
    rintro before later scope session rfl
    rw [openings_append, openings_cons_start] at few
    have free : (after before).sessions.get? (after before).nextId = none :=
      get?_nextId (by omega) (holds_iff (by omega)).mp
    refine ⟨congrArg Option.isSome free, fun id other => ?_⟩
    have same := SortedMap.get?_insert_of_ne (after before).sessions (scope, session) other
    exact ⟨congrArg (Option.map _) same, congrArg (Option.map _) same⟩
  get? := get?_eq_some_iff.trans (exists_congr fun _ => holds_iff few)
  scopeOf? := scopeOf?_eq_some_iff.trans (exists_congr fun _ => holds_iff few)
  contains := contains_iff.trans (exists_congr fun _ => exists_congr fun _ => holds_iff few)
  listed := mem_toList_iff.trans (exists_congr fun _ => holds_iff few)
  ascending := by
    rw [toList, List.map_map]
    exact pairwise_keys (after calls).sessions
  closed := mem_closeScope_iff.trans (holds_iff few)
  inOrder scope := by
    rw [closeScope, List.map_map]
    exact pairwise_keys ((after calls).sessions.filter _)
  left scope id := by
    rw [get?_sessions_closeScope, scopeOf?]
    cases (after calls).sessions.get? id with
    | none => rfl
    | some entry =>
      by_cases owned : entry.1 = scope
      · simp [Option.filter_some, owned]
      · simp [Option.filter_some, owned]

/-- Three sessions of two scopes. The second is ended before there is one, so that it stays open; the third
is changed, and the first one is ended. -/
def deskCalls : List (RegistryCall Nat) := [
  .start (.map 1) 10, .finish 1, .start .global 20, .start (.map 1) 30, .change 2 (· + 5), .finish 0]

theorem desk_keeps_sessions : openings deskCalls ≤ UInt32.size ∧ (numbers deskCalls).Nodup ∧
    StandsOpen deskCalls 2 (.map 1) 35 ∧ (∃ owner, StandsOpen deskCalls 1 owner 20) ∧
      ¬∃ owner content, StandsOpen deskCalls 0 owner content := by
  have few : openings deskCalls ≤ UInt32.size := by decide
  have kept := keeps_sessions few
  refine ⟨few, kept.numbers, kept.closed.mp (by decide), kept.get?.mp (by decide), fun stands => ?_⟩
  exact absurd (kept.contains.mpr stands) (by decide)

end SessionRegistry

end Lockstep
