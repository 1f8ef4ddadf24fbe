import Lockstep.Drift.Ledger
import Lockstep.Proofs.Drift.Archive

/-! # One ledger for all scopes

A ledger that all scopes share answers like an arbiter that keeps them apart (`DriftLedger.answers_eq`).
What carries this is that the tables, looked through for one scope, are what the arbiter remembers of
this scope (`DriftLedger.Mirrors`): whatever is asked about a scope, its own entries change as they do
there, and those of the others stay.
-/

namespace Lockstep

theorem compare_scopeTick (first second : ScopeId × Tick) : compare first second =
    (compare first.1 second.1).then (compare first.2 second.2) := rfl

namespace SortedMap

/-- Of the ticks of a map, those in front of a place are those before the tick there. -/
theorem mem_take_iff {α : Type} {map : SortedMap Tick α} {place : Nat} {first tick : Tick}
    (here : map.keys[place]? = some first) (listed : tick ∈ map.keys) :
    tick ∈ map.keys.take place ↔ tick < first := by
  obtain ⟨within, rfl⟩ := List.getElem?_eq_some_iff.mp here
  have ascending : map.keys.Pairwise (· < ·) :=
    List.pairwise_map.mpr (map.sorted.imp compareOfLessAndEq_eq_lt.mp)
  have split := List.take_append_drop place map.keys
  rw [List.drop_eq_getElem_cons within] at split
  rw [← split] at ascending listed
  obtain ⟨-, behind, apart⟩ := List.pairwise_append.mp ascending
  constructor
  · intro front
    exact apart tick front _ List.mem_cons_self
  · intro before
    refine (List.mem_append.mp listed).resolve_right fun back => ?_
    rcases List.mem_cons.mp back with rfl | back
    · exact UInt32.lt_irrefl _ before
    · exact UInt32.lt_irrefl _ (UInt32.lt_trans before ((List.pairwise_cons.mp behind).1 tick back))

end SortedMap

namespace DriftLedger

variable {ledger : DriftLedger} {scope other : ScopeId}

/-- The references of a scope. -/
def referencesOf (ledger : DriftLedger) (scope : ScopeId) : SortedMap Tick DriftOpinion where
  entries := (ledger.references.entries.filter (·.1.1 = scope)).map fun entry => (entry.1.2, entry.2)
  sorted := by
    refine List.pairwise_map.mpr ?_
    refine (ledger.references.sorted.filter _).imp_of_mem fun {a b} first second before => ?_
    have first : a.1.1 = scope := of_decide_eq_true (List.mem_filter.mp first).2
    have second : b.1.1 = scope := of_decide_eq_true (List.mem_filter.mp second).2
    rwa [compare_scopeTick, first, second, Std.ReflOrd.compare_self, Ordering.eq_then] at before

/-- What the tables hold of a scope. -/
def verdicts (ledger : DriftLedger) (scope : ScopeId) : ScopeVerdicts where
  references := ledger.referencesOf scope
  horizon := ledger.horizons.get? scope
  diverged := (ledger.diverged.filter (·.1 = scope)).map (·.2)

theorem get?_referencesOf (ledger : DriftLedger) (scope : ScopeId) (tick : Tick) :
    (ledger.referencesOf scope).get? tick = ledger.references.get? (scope, tick) := by
  refine Option.ext fun reference => ?_
  rw [← SortedMap.mem_entries_iff, ← SortedMap.mem_entries_iff, referencesOf]
  simp

theorem keys_referencesOf (ledger : DriftLedger) (scope : ScopeId) :
    (ledger.referencesOf scope).keys = ledger.ticks scope := by
  simp [referencesOf, SortedMap.keys, ticks, List.filter_map, Function.comp_def]

/-- Tables that differ in other scopes hold the same of a scope. -/
theorem verdicts_congr {first second : DriftLedger} {scope : ScopeId}
    (references : ∀ tick, first.references.get? (scope, tick) = second.references.get? (scope, tick))
    (horizons : first.horizons.get? scope = second.horizons.get? scope)
    (diverged : first.diverged.filter (·.1 = scope) = second.diverged.filter (·.1 = scope)) :
    first.verdicts scope = second.verdicts scope := by
  have same : first.referencesOf scope = second.referencesOf scope :=
    SortedMap.ext fun tick => by rw [get?_referencesOf, get?_referencesOf, references]
  rw [verdicts, verdicts, same, horizons, diverged]

/-! ## Eviction -/

theorem get?_evicted (scope : ScopeId) (ticks : List Tick)
    (references : SortedMap (ScopeId × Tick) DriftOpinion) (key : ScopeId × Tick) :
    (ticks.foldl (fun references tick => references.erase (scope, tick)) references).get? key =
      if key.1 = scope ∧ key.2 ∈ ticks then none else references.get? key := by
  induction ticks generalizing references with
  | nil => simp
  | cons tick ticks ih =>
    rw [List.foldl_cons, ih]
    by_cases same : key = (scope, tick)
    · simp [same]
    · have apart : ¬(key.1 = scope ∧ key.2 = tick) := fun both => same (Prod.ext both.1 both.2)
      rw [SortedMap.get?_erase_of_ne references same]
      refine if_congr ?_ rfl rfl
      rw [List.mem_cons, and_or_left, or_iff_right apart]

/-- The references that go are those before the horizon. -/
theorem referencesOf_evicted {excess : Nat} {first : Tick}
    (here : (ledger.ticks scope)[excess]? = some first) (horizons : SortedMap ScopeId Tick) :
    ({ ledger with
        references := ((ledger.ticks scope).take excess).foldl
          (fun references tick => references.erase (scope, tick)) ledger.references
        horizons } : DriftLedger).referencesOf scope =
      (ledger.referencesOf scope).filter fun tick _ => first ≤ tick := by
  rw [← keys_referencesOf] at here ⊢
  refine SortedMap.ext fun tick => ?_
  rw [get?_referencesOf, get?_evicted, SortedMap.get?_filter, get?_referencesOf]
  cases found : ledger.references.get? (scope, tick) with
  | none => simp
  | some reference =>
    have listed : tick ∈ (ledger.referencesOf scope).keys :=
      SortedMap.mem_keys_iff.mpr ⟨reference, by rw [get?_referencesOf, found]⟩
    simp only [true_and, SortedMap.mem_take_iff here listed, ← UInt32.not_le]
    by_cases kept : first ≤ tick
    · simp [kept, Option.filter_some]
    · simp [kept]

theorem verdicts_evict_self (ledger : DriftLedger) (scope : ScopeId) :
    (ledger.evict scope).verdicts scope = (ledger.verdicts scope).evict ledger.history := by
  have keys : (ledger.verdicts scope).references.keys = ledger.ticks scope :=
    keys_referencesOf ledger scope
  have size : (ledger.verdicts scope).references.size = (ledger.ticks scope).length := by
    rw [← keys, SortedMap.keys, List.length_map, SortedMap.size]
  rw [evict, ScopeVerdicts.evict, keys, size]
  cases here : (ledger.ticks scope)[(ledger.ticks scope).length - ledger.history]? with
  | none => rw [List.drop_eq_nil_of_le (List.getElem?_eq_none_iff.mp here)]
  | some first =>
    obtain ⟨within, same⟩ := List.getElem?_eq_some_iff.mp here
    rw [List.drop_eq_getElem_cons within, same]
    dsimp only
    split
    next => rfl
    next =>
      have left := referencesOf_evicted here (ledger.horizons.insert scope first)
      rw [verdicts, left, SortedMap.get?_insert_self]
      rfl

theorem verdicts_evict_of_ne (ledger : DriftLedger) (apart : other ≠ scope) :
    (ledger.evict scope).verdicts other = ledger.verdicts other := by
  unfold evict
  dsimp only
  split
  next first here =>
    split
    next => rfl
    next =>
      refine verdicts_congr (fun tick => ?_) (SortedMap.get?_insert_of_ne _ _ apart) rfl
      rw [get?_evicted, if_neg fun both => apart both.1]
  next => rfl

/-! ## What is asked of one scope -/

theorem history_evict (ledger : DriftLedger) (scope : ScopeId) :
    (ledger.evict scope).history = ledger.history := by
  unfold evict
  dsimp only
  split
  next =>
    split
    next => rfl
    next => rfl
  next => rfl

/-- An opinion that is the first one on its tick is kept among those of its scope. -/
theorem referencesOf_insert_self (ledger : DriftLedger) (opinion : DriftOpinion) :
    ({ ledger with references := ledger.references.insert (opinion.scope, opinion.tick) opinion } :
        DriftLedger).referencesOf opinion.scope =
      (ledger.referencesOf opinion.scope).insert opinion.tick opinion := by
  refine SortedMap.ext fun tick => ?_
  rw [get?_referencesOf]
  by_cases same : tick = opinion.tick
  · subst same
    rw [SortedMap.get?_insert_self, SortedMap.get?_insert_self]
  · have apart : (opinion.scope, tick) ≠ (opinion.scope, opinion.tick) :=
      fun both => same (congrArg Prod.snd both)
    rw [SortedMap.get?_insert_of_ne _ _ apart, SortedMap.get?_insert_of_ne _ _ same, get?_referencesOf]

theorem submit_self (ledger : DriftLedger) (peer : PeerId) (opinion : DriftOpinion) :
    (ledger.submit peer opinion).1 =
        ((ledger.verdicts opinion.scope).submit ledger.history peer opinion).1 ∧
      (ledger.submit peer opinion).2.verdicts opinion.scope =
        ((ledger.verdicts opinion.scope).submit ledger.history peer opinion).2 := by
  have horizon : (ledger.verdicts opinion.scope).horizon = ledger.horizons.get? opinion.scope := rfl
  have found : (ledger.verdicts opinion.scope).references.get? opinion.tick =
    ledger.references.get? (opinion.scope, opinion.tick) := get?_referencesOf ledger _ _
  have named : (ledger.verdicts opinion.scope).diverged.contains peer =
      ledger.diverged.contains (opinion.scope, peer) := by
    rw [Bool.eq_iff_iff]
    simp [verdicts]
  rw [submit, ScopeVerdicts.submit, horizon, found, named]
  split
  next => exact ⟨rfl, rfl⟩
  next =>
    cases ledger.references.get? (opinion.scope, opinion.tick) with
    | none =>
      refine ⟨rfl, ?_⟩
      rw [verdicts_evict_self, verdicts, referencesOf_insert_self]
      rfl
    | some reference =>
      cases differs : reference.firstDifference opinion with
      | none =>
        simp only [differs]
        exact ⟨trivial, trivial⟩
      | some tick =>
        simp only [differs]
        split
        next => exact ⟨rfl, rfl⟩
        next =>
          refine ⟨rfl, ?_⟩
          simp [verdicts, referencesOf]

theorem history_submit (ledger : DriftLedger) (peer : PeerId) (opinion : DriftOpinion) :
    (ledger.submit peer opinion).2.history = ledger.history := by
  rw [submit]
  split
  next => rfl
  next =>
    split
    next => exact history_evict _ _
    next =>
      split
      next => rfl
      next =>
        split
        next => rfl
        next => rfl

theorem verdicts_submit_of_ne (ledger : DriftLedger) (peer : PeerId) {opinion : DriftOpinion}
    (apart : other ≠ opinion.scope) :
    (ledger.submit peer opinion).2.verdicts other = ledger.verdicts other := by
  have elsewhere (tick : Tick) : (other, tick) ≠ (opinion.scope, opinion.tick) :=
    fun both => apart (congrArg Prod.fst both)
  rw [submit]
  split
  next => rfl
  next =>
    split
    next =>
      rw [verdicts_evict_of_ne _ apart]
      exact verdicts_congr (fun tick => SortedMap.get?_insert_of_ne _ _ (elsewhere tick)) rfl rfl
    next =>
      split
      next => rfl
      next =>
        split
        next => rfl
        next =>
          refine verdicts_congr (fun _ => rfl) rfl ?_
          exact List.filter_cons_of_neg (by simpa using Ne.symm apart)

theorem verdicts_clear_self (ledger : DriftLedger) (scope : ScopeId) :
    (ledger.clear scope).verdicts scope = {} := by
  have references : (ledger.clear scope).referencesOf scope = .empty := by
    refine SortedMap.ext fun tick => ?_
    rw [get?_referencesOf, clear, SortedMap.get?_filter]
    simp
  have diverged : (ledger.clear scope).diverged.filter (·.1 = scope) = [] := by
    simp [clear, List.filter_filter]
  rw [verdicts, references, diverged, clear, SortedMap.get?_erase_self]
  rfl

theorem verdicts_clear_of_ne (ledger : DriftLedger) (apart : other ≠ scope) :
    (ledger.clear scope).verdicts other = ledger.verdicts other := by
  refine verdicts_congr (fun tick => ?_) (SortedMap.get?_erase_of_ne _ apart) ?_
  · rw [clear, SortedMap.get?_filter]
    cases ledger.references.get? (other, tick) with
    | none => rfl
    | some reference => simp [Option.filter_some, apart]
  · rw [clear, List.filter_filter]
    refine List.filter_congr fun named _ => ?_
    by_cases same : named.1 = other
    · simp [same, apart]
    · simp [same]

/-! ## Beside an arbiter -/

/-- Do what is asked; only the submission of an opinion is answered. -/
def take (ledger : DriftLedger) : ArbiterCall → Option Divergence × DriftLedger
  | .submit peer opinion => ledger.submit peer opinion
  | .clear scope => (none, ledger.clear scope)

/-- The answers to calls, one after another. -/
def answers : DriftLedger → List ArbiterCall → List (Option Divergence)
  | _, [] => []
  | ledger, call :: calls => (ledger.take call).1 :: (ledger.take call).2.answers calls

/-- What calls leave. -/
def after (ledger : DriftLedger) (calls : List ArbiterCall) : DriftLedger :=
  calls.foldl (fun ledger call => (ledger.take call).2) ledger

/-- The tables hold of every scope what an arbiter remembers of it. -/
structure Mirrors (ledger : DriftLedger) (arbiter : DriftArbiter) : Prop where
  history : ledger.history = arbiter.history
  scopes (scope : ScopeId) : ledger.verdicts scope = arbiter.verdicts scope

variable {arbiter : DriftArbiter}

theorem mirrors_new (history : Nat) : (new history).Mirrors (.new history) where
  history := rfl
  scopes _ := rfl

theorem Mirrors.clear (mirrors : ledger.Mirrors arbiter) (cleared : ScopeId) :
    (ledger.clear cleared).Mirrors (arbiter.clear cleared) where
  history := mirrors.history
  scopes scope := by
    by_cases same : scope = cleared
    · rw [same, verdicts_clear_self, DriftArbiter.verdicts_clear_self]
    · rw [verdicts_clear_of_ne ledger same, mirrors.scopes, DriftArbiter.verdicts_clear_of_ne arbiter same]

/-- A call is answered as by the arbiter. -/
theorem Mirrors.take (mirrors : ledger.Mirrors arbiter) (call : ArbiterCall) :
    (ledger.take call).1 = (arbiter.take call).1 ∧ (ledger.take call).2.Mirrors (arbiter.take call).2 := by
  cases call with
  | clear cleared => exact ⟨rfl, mirrors.clear cleared⟩
  | submit peer opinion =>
    obtain ⟨answer, left⟩ := ledger.submit_self peer opinion
    rw [mirrors.scopes, mirrors.history] at answer left
    refine ⟨answer, (ledger.history_submit peer opinion).trans mirrors.history, fun scope => ?_⟩
    by_cases same : scope = opinion.scope
    · subst same
      rw [DriftArbiter.take, DriftArbiter.verdicts_submit_self]
      exact left
    · have apart : (ArbiterCall.submit peer opinion).scope ≠ scope := Ne.symm same
      rw [DriftArbiter.verdicts_take_of_ne apart, ← mirrors.scopes]
      exact ledger.verdicts_submit_of_ne peer same

theorem Mirrors.after (mirrors : ledger.Mirrors arbiter) (calls : List ArbiterCall) :
    (ledger.after calls).Mirrors (arbiter.after calls) := by
  induction calls generalizing ledger arbiter with
  | nil => exact mirrors
  | cons call calls ih => exact ih (mirrors.take call).2

theorem Mirrors.answers (mirrors : ledger.Mirrors arbiter) (calls : List ArbiterCall) :
    ledger.answers calls = arbiter.answers calls := by
  induction calls generalizing ledger arbiter with
  | nil => rfl
  | cons call calls ih =>
    obtain ⟨alike, mirrored⟩ := mirrors.take call
    rw [DriftLedger.answers, DriftArbiter.answers, alike, ih mirrored]

/-- A ledger answers whatever it is asked as an arbiter does. -/
theorem answers_eq (history : Nat) (calls : List ArbiterCall) :
    (new history).answers calls = (DriftArbiter.new history).answers calls :=
  (mirrors_new history).answers calls

end DriftLedger

end Lockstep
