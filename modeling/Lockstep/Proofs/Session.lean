import Lockstep.Session
import Mathlib.Data.List.Basic
import Mathlib.Data.List.Induction

/-! # Sessions of several scopes

One registry numbers the sessions of all scopes, in the order in which they are opened. So the number
of a session is the count of those opened before it, by whatever scope (`given_run`), and peers that
interleave the calls of the scopes differently number the sessions alike exactly if they open them in
the same order of scopes (`numbered_alike_iff`). Closing sessions has no part in this.
-/

namespace Lockstep

universe u

/-- What a scope does with its sessions. A session to be closed is named by its place among those that
the scope has opened. -/
inductive SessionCall (σ : Type u) where
  | start (session : σ)
  | finish (place : Nat)
  deriving DecidableEq

/-- A registry in use, and the numbers that the sessions of each scope were given, in order. -/
structure SessionHistory (σ : Type u) where
  registry : SessionRegistry σ := {}
  given : ScopeId → List SessionId := fun _ => []

namespace SessionHistory

variable {σ : Type u}

/-- Let a scope open or close a session. In a place that a scope has not come to, it has no session to
close. -/
def act (history : SessionHistory σ) : ScopeId × SessionCall σ → SessionHistory σ
  | (scope, .start session) =>
    let (id, registry) := history.registry.openSession scope session
    { registry
      given := fun other => if other = scope then history.given scope ++ [id] else history.given other }
  | (scope, .finish place) =>
    match (history.given scope)[place]? with
    | some id => { history with registry := (history.registry.close id).2 }
    | none => history

/-- What comes of the calls of all scopes, interleaved in some order. -/
def run (calls : List (ScopeId × SessionCall σ)) : SessionHistory σ := calls.foldl act {}

/-- The scope that opens a session in a call, if one does. -/
def opener? : ScopeId × SessionCall σ → Option ScopeId
  | (scope, .start _) => some scope
  | (_, .finish _) => none

/-- The scopes that open sessions, in order. -/
def openers (calls : List (ScopeId × SessionCall σ)) : List ScopeId := calls.filterMap opener?

/-- For each session that a scope opens, how many were opened before it. -/
def places (scope : ScopeId) (openers : List ScopeId) : List Nat :=
  (openers.zipIdx.filter (·.1 == scope)).map (·.2)

/-! ## The number of a session -/

theorem run_append (calls : List (ScopeId × SessionCall σ)) (call : ScopeId × SessionCall σ) :
    run (calls ++ [call]) = (run calls).act call := by
  rw [run, List.foldl_append]
  rfl

theorem places_append (scope other : ScopeId) (openers : List ScopeId) :
    places other (openers ++ [scope]) =
      if other = scope then places other openers ++ [openers.length] else places other openers := by
  rw [places, List.zipIdx_append, List.filter_append, List.map_append]
  by_cases own : other = scope
  · subst own
    simp [places]
  · simp [places, own, Ne.symm own]

/-- A session's number is the count of the sessions opened before it, by whatever scope. -/
theorem given_run (calls : List (ScopeId × SessionCall σ)) :
    (run calls).registry.nextId = UInt32.ofNat (openers calls).length ∧
      ∀ scope, (run calls).given scope = (places scope (openers calls)).map UInt32.ofNat := by
  induction calls using List.reverseRecOn with
  | nil => exact ⟨rfl, fun _ => rfl⟩
  | append_singleton calls call ih =>
    obtain ⟨next, given⟩ := ih
    rw [run_append, openers, List.filterMap_append]
    rcases call with ⟨scope, session | place⟩
    · change _ = UInt32.ofNat (openers calls ++ [scope]).length ∧
        ∀ other, _ = (places other (openers calls ++ [scope])).map _
      refine ⟨?_, fun other => ?_⟩
      · rw [List.length_append, List.length_singleton, UInt32.ofNat_add, ← next]
        rfl
      · rw [places_append]
        by_cases own : other = scope
        · subst own
          simp [act, SessionRegistry.openSession, given, next]
        · simp [act, own, given]
    · have kept : ((run calls).act (scope, .finish place)).registry.nextId = (run calls).registry.nextId ∧
          ((run calls).act (scope, .finish place)).given = (run calls).given := by
        rw [act]
        split <;> exact ⟨rfl, rfl⟩
      rw [kept.1, kept.2]
      change _ = UInt32.ofNat (openers calls ++ []).length ∧
        ∀ other, _ = (places other (openers calls ++ [])).map _
      rw [List.append_nil]
      exact ⟨next, given⟩

/-! ## Numbering alike -/

theorem mem_places {scope : ScopeId} {openers : List ScopeId} {place : Nat} :
    place ∈ places scope openers ↔ openers[place]? = some scope := by
  simp [places, List.mem_zipIdx_iff_getElem?]

/-- The places of all scopes determine the order in which they open sessions. -/
theorem eq_of_places {first second : List ScopeId}
    (same : ∀ scope, places scope first = places scope second) : first = second := by
  refine List.ext_getElem? fun place => Option.ext fun scope => ?_
  rw [← mem_places, ← mem_places, same scope]

/-- Counts give the same numbers exactly if they are the same as far as words go. -/
theorem map_ofNat_eq_iff {first second : List Nat} :
    first.map UInt32.ofNat = second.map UInt32.ofNat ↔
      first.map (· % UInt32.size) = second.map (· % UInt32.size) := by
  have words (counts : List Nat) :
      (counts.map UInt32.ofNat).map UInt32.toNat = counts.map (· % UInt32.size) := by
    rw [List.map_map]
    exact List.map_congr_left fun count _ => UInt32.toNat_ofNat'
  have injective : Function.Injective (List.map UInt32.toNat) :=
    List.map_injective_iff.mpr fun _ _ same => UInt32.toNat_inj.mp same
  rw [← words, ← words, injective.eq_iff]

theorem map_mod_places {openers : List ScopeId} (few : openers.length ≤ UInt32.size) (scope : ScopeId) :
    (places scope openers).map (· % UInt32.size) = places scope openers := by
  conv_rhs => rw [← List.map_id (places scope openers)]
  refine List.map_congr_left fun place member => ?_
  obtain ⟨inside, -⟩ := List.getElem?_eq_some_iff.mp (mem_places.mp member)
  exact Nat.mod_eq_of_lt (Nat.lt_of_lt_of_le inside few)

/-- Two interleavings number the sessions of all scopes alike exactly if every session is opened after
the same number of others in both, as far as words go; before the words run out, exactly if scopes
open sessions in the same order. -/
theorem numbered_alike_iff (first second : List (ScopeId × SessionCall σ)) :
    ((∀ scope, (run first).given scope = (run second).given scope) ↔
      ∀ scope, (places scope (openers first)).map (· % UInt32.size) =
        (places scope (openers second)).map (· % UInt32.size)) ∧
    ((openers first).length ≤ UInt32.size → (openers second).length ≤ UInt32.size →
      ((∀ scope, (run first).given scope = (run second).given scope) ↔
        openers first = openers second)) := by
  have general : (∀ scope, (run first).given scope = (run second).given scope) ↔
      ∀ scope, (places scope (openers first)).map (· % UInt32.size) =
        (places scope (openers second)).map (· % UInt32.size) := by
    refine forall_congr' fun scope => ?_
    rw [(given_run first).2, (given_run second).2, map_ofNat_eq_iff]
  refine ⟨general, fun few few' => general.trans ?_⟩
  simp only [map_mod_places few, map_mod_places few']
  exact ⟨eq_of_places, fun same scope => by rw [same]⟩

/-- Two maps that open a session each, and one that closes its own. -/
def farmFirst : List (ScopeId × SessionCall String) := [
  (.map 1, .start "seeds"), (.map 2, .start "ore"), (.map 1, .finish 0)]

/-- The same with the session closed in between. -/
def farmFirst' : List (ScopeId × SessionCall String) := [
  (.map 1, .start "seeds"), (.map 1, .finish 0), (.map 2, .start "ore")]

/-- The same with the second map in front. -/
def mineFirst : List (ScopeId × SessionCall String) := [
  (.map 2, .start "ore"), (.map 1, .start "seeds"), (.map 1, .finish 0)]

/-- When a session is closed makes no difference to the numbers. -/
theorem farm_numbered_alike : ((openers farmFirst).length ≤ UInt32.size ∧
    (openers farmFirst').length ≤ UInt32.size ∧ openers farmFirst = openers farmFirst') ∧
      ∀ scope, (run farmFirst).given scope = (run farmFirst').given scope := by
  have few : (openers farmFirst).length ≤ UInt32.size := by decide
  have few' : (openers farmFirst').length ≤ UInt32.size := by decide
  exact ⟨⟨few, few', rfl⟩, ((numbered_alike_iff farmFirst farmFirst').2 few few').mpr rfl⟩

/-- Which map is first does: each keeps its own order of calls, but their sessions are given other
numbers, and the number of the one's session refers to the other's. -/
theorem mine_numbered_otherwise :
    (∀ scope, farmFirst.filter (·.1 == scope) = mineFirst.filter (·.1 == scope)) ∧
      (run farmFirst).given (.map 1) = [0] ∧ (run mineFirst).given (.map 1) = [1] ∧
      (run farmFirst).registry.get? 1 = some "ore" ∧ (run mineFirst).registry.get? 1 = none := by
  refine ⟨fun scope => ?_, by decide⟩
  by_cases farm : scope = .map 1
  · subst farm
    decide
  · have apart : (ScopeId.map 1 == scope) = false := beq_eq_false_iff_ne.mpr (Ne.symm farm)
    simp only [farmFirst, mineFirst, List.filter_cons, apart, Bool.false_eq_true, if_false]

end SessionHistory

end Lockstep
