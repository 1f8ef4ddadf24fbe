import Lockstep.Proofs.Drift.Windows
import Mathlib.Order.Monotone.Basic

/-! # Exchanges of opinions

Two peers hand their opinions on the windows of a scope to one arbiter, each in the order of the
windows. The first opinion on a window becomes the reference for it, and as long as neither peer gets
so far ahead that references go before they are used, the second one is compared with it. So the
arbiter names somebody as soon as both opinions on the first window in which they part are in, and
not before (`Exchange.names_first`).
-/

namespace Lockstep

/-! ## References in order -/

/-- An entry comes behind all those with lower keys. -/
theorem SortedMap.insertEntry_of_gt {κ : Type} {α : Type} [Ord κ] {key : κ} (value : α)
    {entries : List (κ × α)} (above : ∀ entry ∈ entries, compare key entry.1 = .gt) :
    insertEntry key value entries = entries ++ [(key, value)] := by
  induction entries with
  | nil => rfl
  | cons head rest ih =>
    obtain ⟨first, later⟩ := List.forall_mem_cons.mp above
    rw [insertEntry, first, List.cons_append]
    exact congrArg _ (ih later)

namespace DriftOpinion

/-- Opinions as references for their ticks. -/
def asEntries (opinions : List DriftOpinion) : List (Tick × DriftOpinion) :=
  opinions.map fun opinion => (opinion.tick, opinion)

/-- The opinion on each window is on the tick that the window closes with. -/
def Timed (clock : Nat → Nat) (opinions : List DriftOpinion) : Prop :=
  ∀ place opinion, opinions[place]? = some opinion → opinion.tick.toNat = clock place

theorem Timed.mem_drop {clock : Nat → Nat} {opinions : List DriftOpinion} (timed : Timed clock opinions)
    {count : Nat} {opinion : DriftOpinion} (member : opinion ∈ opinions.drop count) :
    ∃ place, count ≤ place ∧ place < opinions.length ∧ opinion.tick.toNat = clock place := by
  obtain ⟨place, here⟩ := List.mem_iff_getElem?.mp member
  rw [List.getElem?_drop] at here
  exact ⟨count + place, Nat.le_add_right _ _, (List.getElem?_eq_some_iff.mp here).1, timed _ _ here⟩

/-- Later windows close with later ticks. -/
theorem Timed.pairwise {clock : Nat → Nat} {opinions : List DriftOpinion} (timed : Timed clock opinions)
    (mono : StrictMono clock) : opinions.Pairwise (·.tick < ·.tick) := by
  refine List.pairwise_iff_getElem.mpr fun first second inside inside' before => ?_
  rw [UInt32.lt_iff_toNat_lt, timed first _ (List.getElem?_eq_getElem inside),
    timed second _ (List.getElem?_eq_getElem inside')]
  exact mono before

theorem Timed.concat {clock : Nat → Nat} {opinions : List DriftOpinion} {opinion : DriftOpinion}
    (timed : Timed clock opinions) (new : opinion.tick.toNat = clock opinions.length) :
    Timed clock (opinions ++ [opinion]) := by
  intro place other here
  rw [List.getElem?_append] at here
  split at here
  next => exact timed place other here
  next beyond =>
    rw [List.getElem?_singleton] at here
    split at here
    next last =>
      cases here
      rw [new]
      congr 1
      omega
    next => cases here

end DriftOpinion

open DriftOpinion (asEntries Timed)

/-- An arbiter that has been given these opinions on a scope first, one on each window, and has named
nobody. -/
structure ScopeVerdicts.Knows (history : Nat) (clock : Nat → Nat) (firsts : List DriftOpinion)
    (verdicts : ScopeVerdicts) : Prop where
  references : verdicts.references.entries = asEntries (firsts.drop (firsts.length - history))
  horizon : ∀ tick, verdicts.horizon = some tick → tick.toNat ≤ clock (firsts.length - history)
  diverged : verdicts.diverged = []
  timed : Timed clock firsts

namespace ScopeVerdicts

variable {history : Nat} {clock : Nat → Nat} {firsts : List DriftOpinion} {verdicts : ScopeVerdicts}
  {opinion reference : DriftOpinion}

theorem knows_empty (history : Nat) (clock : Nat → Nat) : Knows history clock [] {} where
  references := by
    rw [List.drop_nil]
    rfl
  horizon := nofun
  diverged := rfl
  timed := nofun

/-- References stay while there are no more than the arbiter keeps. -/
theorem evict_of_size_le (few : verdicts.references.size ≤ history) :
    verdicts.evict history = verdicts := by
  have excess : verdicts.references.size - history = 0 := Nat.sub_eq_zero_of_le few
  rw [evict]
  simp only [excess, if_true]
  split <;> rfl

variable (history verdicts) in
/-- Of more references than the arbiter keeps, the latest stay, and the first of these is the horizon. -/
theorem evict_of_lt_size (before : List DriftOpinion) {later : List DriftOpinion} {first : DriftOpinion}
    (held : verdicts.references.entries = asEntries (before ++ first :: later))
    (ascending : (before ++ first :: later).Pairwise (·.tick < ·.tick)) (some : before ≠ [])
    (many : later.length + 1 = history) :
    (verdicts.evict history).references.entries = asEntries (first :: later) ∧
      (verdicts.evict history).horizon = .some first.tick ∧
      (verdicts.evict history).diverged = verdicts.diverged := by
  have excess : verdicts.references.size - history = before.length := by
    rw [SortedMap.size, held, asEntries, List.length_map, List.length_append, List.length_cons]
    omega
  have keys : verdicts.references.keys.drop before.length = first.tick :: later.map (·.tick) := by
    rw [SortedMap.keys, held, asEntries, List.map_map, List.map_append,
      List.drop_left' (List.length_map _)]
    rfl
  have nonzero : before.length ≠ 0 := fun none => some (List.eq_nil_of_length_eq_zero none)
  rw [evict]
  simp only [excess, keys, if_neg nonzero, and_true]
  obtain ⟨-, sorted, apart⟩ := List.pairwise_append.mp ascending
  change List.filter _ verdicts.references.entries = _
  rw [held, asEntries, List.map_append, List.filter_append, List.filter_eq_nil_iff.mpr,
    List.filter_eq_self.mpr, List.nil_append]
  · rfl
  · intro entry member
    obtain ⟨opinion, known, rfl⟩ := List.mem_map.mp member
    rcases List.mem_cons.mp known with rfl | known
    · exact decide_eq_true (UInt32.le_refl _)
    · exact decide_eq_true (UInt32.le_of_lt ((List.pairwise_cons.mp sorted).1 opinion known))
  · intro entry member
    obtain ⟨opinion, known, rfl⟩ := List.mem_map.mp member
    rw [decide_eq_true_iff, UInt32.not_le]
    exact apart opinion known first List.mem_cons_self

namespace Knows

/-- There is no reference for a window on which no opinion has come in. -/
theorem get?_new (knows : verdicts.Knows history clock firsts) (mono : StrictMono clock)
    (new : opinion.tick.toNat = clock firsts.length) :
    verdicts.references.get? opinion.tick = none := by
  refine Option.eq_none_iff_forall_not_mem.mpr fun reference found => ?_
  have member := SortedMap.mem_entries_iff.mpr found
  rw [knows.references] at member
  obtain ⟨known, member, same⟩ := List.mem_map.mp member
  obtain ⟨place, -, below, tick⟩ := knows.timed.mem_drop member
  rw [(Prod.mk.inj same).1, new] at tick
  exact absurd (mono.injective tick) (Nat.ne_of_gt below)

/-- The reference for one of the latest windows is the opinion that came in first. -/
theorem get?_known (knows : verdicts.Knows history clock firsts) {place : Nat}
    (known : firsts[place]? = some reference) (late : firsts.length ≤ place + history) :
    verdicts.references.get? reference.tick = some reference := by
  refine SortedMap.mem_entries_iff.mp ?_
  rw [knows.references]
  refine List.mem_map.mpr
    ⟨reference, List.mem_iff_getElem?.mpr ⟨place - (firsts.length - history), ?_⟩, rfl⟩
  rw [List.getElem?_drop, ← known]
  congr 1
  omega

/-- Nothing on one of the latest windows is passed over. -/
theorem heard (knows : verdicts.Knows history clock firsts) (mono : StrictMono clock) {place : Nat}
    (timed : opinion.tick.toNat = clock place) (late : firsts.length ≤ place + history) :
    verdicts.horizon.any (opinion.tick < ·) = false := by
  cases horizon : verdicts.horizon with
  | none => rfl
  | some tick =>
    have passed := knows.horizon tick horizon
    have later : clock (firsts.length - history) ≤ clock place := mono.monotone (by omega)
    rw [Option.any_some, decide_eq_false_iff_not, UInt32.not_lt, UInt32.le_iff_toNat_le]
    omega

/-- An opinion that becomes a reference goes behind the others. -/
theorem entries_insert (knows : verdicts.Knows history clock firsts) (mono : StrictMono clock)
    (new : opinion.tick.toNat = clock firsts.length) :
    (verdicts.references.insert opinion.tick opinion).entries =
      asEntries ((firsts ++ [opinion]).drop (firsts.length - history)) := by
  have above : ∀ entry ∈ verdicts.references.entries, compare opinion.tick entry.1 = .gt := by
    intro entry member
    rw [knows.references] at member
    obtain ⟨reference, known, rfl⟩ := List.mem_map.mp member
    obtain ⟨place, -, below, tick⟩ := knows.timed.mem_drop known
    rw [Std.compare_eq_gt, UInt32.lt_iff_toNat_lt, tick, new]
    exact mono below
  refine (SortedMap.insertEntry_of_gt opinion above).trans ?_
  rw [knows.references, List.drop_append_of_le_length (Nat.sub_le _ _), asEntries, asEntries,
    List.map_append]
  rfl

/-- The first opinion on a window becomes the reference for it. -/
theorem submit_first (knows : verdicts.Knows history clock firsts) (mono : StrictMono clock)
    (positive : 0 < history) (new : opinion.tick.toNat = clock firsts.length) (peer : PeerId) :
    (verdicts.submit history peer opinion).1 = none ∧
      (verdicts.submit history peer opinion).2.Knows history clock (firsts ++ [opinion]) := by
  have heard := knows.heard mono new (Nat.le_add_right _ _)
  have entries := knows.entries_insert mono new
  have timed := knows.timed.concat new
  have length : (firsts ++ [opinion]).length = firsts.length + 1 := by simp
  rw [submit, heard, if_neg Bool.false_ne_true, knows.get?_new mono new]
  refine ⟨rfl, ?_⟩
  by_cases few : firsts.length < history
  · have same : firsts.length - history = (firsts ++ [opinion]).length - history := by omega
    rw [evict_of_size_le]
    · exact ⟨same ▸ entries, same ▸ knows.horizon, knows.diverged, timed⟩
    · rw [SortedMap.size, entries, asEntries, List.length_map, List.length_drop]
      omega
  · have cut := List.drop_eq_getElem_cons (i := firsts.length - history) (l := firsts ++ [opinion])
      (by omega)
    have next := List.drop_eq_getElem_cons (i := firsts.length - history + 1) (l := firsts ++ [opinion])
      (by omega)
    have place : (firsts ++ [opinion]).length - history = firsts.length - history + 1 := by omega
    have ascending := (timed.pairwise mono).drop (i := firsts.length - history)
    rw [cut, next] at entries ascending
    obtain ⟨references, horizon, diverged⟩ := evict_of_lt_size history
      { verdicts with references := verdicts.references.insert opinion.tick opinion } [_] entries
      ascending (List.cons_ne_nil _ _) (by
        rw [List.length_drop]
        omega)
    refine ⟨?_, ?_, diverged.trans knows.diverged, timed⟩
    · rw [references, place, next]
    · intro tick same
      rw [horizon] at same
      cases same
      rw [place, timed _ _ (List.getElem?_eq_getElem _)]

/-- The second opinion on a window is compared with the first. -/
theorem submit_second (knows : verdicts.Knows history clock firsts) (mono : StrictMono clock)
    {place : Nat} (known : firsts[place]? = some reference) (late : firsts.length ≤ place + history)
    (timed : opinion.tick.toNat = clock place) (peer : PeerId) :
    verdicts.submit history peer opinion =
      match reference.firstDifference opinion with
      | none => (none, verdicts)
      | some tick => (some ⟨opinion.scope, tick, peer⟩, { verdicts with diverged := [peer] }) := by
  have same : opinion.tick = reference.tick := by
    rw [← UInt32.toNat_inj, timed, knows.timed place reference known]
  rw [submit, knows.heard mono timed late, if_neg Bool.false_ne_true, same, knows.get?_known known late]
  simp only [knows.diverged]
  cases reference.firstDifference opinion <;> rfl

end Knows

end ScopeVerdicts

/-! ## Exchanges -/

/-- Weigh the opinions of peers one after another; each gets an answer. -/
def DriftArbiter.weigh :
    DriftArbiter → List (PeerId × DriftOpinion) → List (Option Divergence) × DriftArbiter
  | arbiter, [] => ([], arbiter)
  | arbiter, (peer, opinion) :: more =>
    let (answer, arbiter) := arbiter.submit peer opinion
    let (answers, arbiter) := arbiter.weigh more
    (answer :: answers, arbiter)

theorem DriftArbiter.weigh_concat (arbiter : DriftArbiter) (opinions : List (PeerId × DriftOpinion))
    (peer : PeerId) (opinion : DriftOpinion) :
    arbiter.weigh (opinions ++ [(peer, opinion)]) =
      ((arbiter.weigh opinions).1 ++ [((arbiter.weigh opinions).2.submit peer opinion).1],
        ((arbiter.weigh opinions).2.submit peer opinion).2) := by
  induction opinions generalizing arbiter with
  | nil => rfl
  | cons first opinions ih =>
    obtain ⟨author, other⟩ := first
    simp only [List.cons_append, weigh, ih]

/-- Opinions of two peers, each peer's handed in from the first one on; before each of them, its peer is
less than `history` opinions ahead of the other. -/
inductive Exchange (history : Nat) (opinions : Bool → List DriftOpinion) :
    (Bool → Nat) → List (Bool × DriftOpinion) → Prop
  | start : Exchange history opinions (fun _ => 0) []
  | submit {counts : Bool → Nat} {submissions : List (Bool × DriftOpinion)} {opinion : DriftOpinion}
      (side : Bool) : Exchange history opinions counts submissions →
      counts side < counts (!side) + history → (opinions side)[counts side]? = some opinion →
      Exchange history opinions (Function.update counts side (counts side + 1))
        (submissions ++ [(side, opinion)])

namespace Exchange

/-- On one window, the opinions of both peers part at this tick, or nowhere. -/
def PartsAt (opinions : Bool → List DriftOpinion) (place : Nat) (tick? : Option Tick) : Prop :=
  ∀ side first second, (opinions side)[place]? = some first →
    (opinions (!side))[place]? = some second → first.firstDifference second = tick?

/-- An arbiter after an exchange in which nobody parted: it knows the first opinion on each window that
came in. -/
def Leaves (history : Nat) (clock : Nat → Nat) (opinions : Bool → List DriftOpinion)
    (counts : Bool → Nat) (verdicts : ScopeVerdicts) : Prop :=
  ∃ firsts : List DriftOpinion, verdicts.Knows history clock firsts ∧
    (∀ side, counts side ≤ firsts.length ∧ firsts.length ≤ counts side + history) ∧
    ∀ place first, firsts[place]? = some first →
      ∃ side, place < counts side ∧ (opinions side)[place]? = some first

variable {history : Nat} {clock : Nat → Nat} {opinions : Bool → List DriftOpinion} {counts : Bool → Nat}
  {verdicts : ScopeVerdicts} {opinion : DriftOpinion} {side : Bool}

theorem leaves_start (history : Nat) (clock : Nat → Nat) (opinions : Bool → List DriftOpinion) :
    Leaves history clock opinions (fun _ => 0) {} :=
  ⟨[], ScopeVerdicts.knows_empty history clock, fun _ => ⟨Nat.le_refl 0, Nat.zero_le _⟩, nofun⟩

theorem le_update_add_one (counts : Bool → Nat) (side other : Bool) :
    counts other ≤ Function.update counts side (counts side + 1) other := by
  by_cases same : other = side
  · rw [same, Function.update_self]
    exact Nat.le_succ _
  · rw [Function.update_of_ne same]

theorem lt_update_of_behind (behind : counts side < counts (!side)) (other : Bool) :
    counts side < Function.update counts side (counts side + 1) other := by
  by_cases same : other = side
  · rw [same, Function.update_self]
    exact Nat.lt_succ_self _
  · rw [Function.update_of_ne same, Bool.eq_not_of_ne same]
    exact behind

/-- A window that both peers have come to with an opinion, and not before it, is the one that the opinion
is on. -/
theorem eq_of_lt_update {place : Nat}
    (both : ∀ other, place < Function.update counts side (counts side + 1) other)
    (before : ¬ ∀ other, place < counts other) : place = counts side ∧ counts side < counts (!side) := by
  have own := both side
  have theirs := both (!side)
  rw [Function.update_self] at own
  rw [Function.update_of_ne (Bool.not_ne_self side)] at theirs
  have last : ¬ place < counts side := by
    intro early
    refine before fun other => ?_
    by_cases same : other = side
    · exact same ▸ early
    · exact Bool.eq_not_of_ne same ▸ theirs
  omega

/-- An opinion on a window that the other peer has not come to becomes a reference. -/
theorem Leaves.ahead (leaves : Leaves history clock opinions counts verdicts) (mono : StrictMono clock)
    (near : counts side < counts (!side) + history) (here : (opinions side)[counts side]? = some opinion)
    (timed : opinion.tick.toNat = clock (counts side)) (ahead : counts (!side) ≤ counts side)
    (peer : PeerId) :
    (verdicts.submit history peer opinion).1 = none ∧
      Leaves history clock opinions (Function.update counts side (counts side + 1))
        (verdicts.submit history peer opinion).2 := by
  obtain ⟨firsts, knows, bounds, given⟩ := leaves
  -- A reference beyond those that this peer gave would be the other's, who is not ahead.
  have last : firsts.length = counts side := by
    refine Nat.le_antisymm (Nat.not_lt.mp fun short => ?_) (bounds side).1
    obtain ⟨other, before, -⟩ := given (counts side) _ (List.getElem?_eq_getElem short)
    by_cases same : other = side
    · exact Nat.lt_irrefl _ (same ▸ before)
    · rw [Bool.eq_not_of_ne same] at before
      omega
  rw [← last] at timed
  obtain ⟨nobody, known⟩ := knows.submit_first mono (by omega) timed peer
  refine ⟨nobody, firsts ++ [opinion], known, fun other => ?_, fun place first found => ?_⟩
  · rw [List.length_append, List.length_singleton, last]
    by_cases same : other = side
    · subst same
      rw [Function.update_self]
      omega
    · rw [Function.update_of_ne same, Bool.eq_not_of_ne same]
      omega
  · rw [List.getElem?_append] at found
    split at found
    next =>
      obtain ⟨other, before, same⟩ := given place first found
      exact ⟨other, Nat.lt_of_lt_of_le before (le_update_add_one counts side other), same⟩
    next beyond =>
      rw [List.getElem?_singleton] at found
      split at found
      next zero =>
        cases found
        obtain rfl : place = counts side := by omega
        exact ⟨side, by rw [Function.update_self]; exact Nat.lt_succ_self _, here⟩
      next => cases found

/-- An opinion on a window that the other peer has come to is compared with the other's. -/
theorem Leaves.behind (leaves : Leaves history clock opinions counts verdicts) (mono : StrictMono clock)
    (here : (opinions side)[counts side]? = some opinion)
    (timed : opinion.tick.toNat = clock (counts side)) (behind : counts side < counts (!side))
    {tick? : Option Tick} (parts : PartsAt opinions (counts side) tick?) (peer : PeerId) :
    (verdicts.submit history peer opinion).1 = tick?.map (⟨opinion.scope, ·, peer⟩) ∧
      (tick? = none → Leaves history clock opinions (Function.update counts side (counts side + 1))
        (verdicts.submit history peer opinion).2) := by
  obtain ⟨firsts, knows, bounds, given⟩ := leaves
  have inside := Nat.lt_of_lt_of_le behind (bounds (!side)).1
  obtain ⟨other, before, same⟩ := given (counts side) _ (List.getElem?_eq_getElem inside)
  have others : other = !side := by
    refine Bool.eq_not_of_ne fun own => ?_
    exact Nat.lt_irrefl _ (own ▸ before)
  subst others
  have apart := parts (!side) _ opinion same (by rw [Bool.not_not]; exact here)
  have submitted := knows.submit_second mono (List.getElem?_eq_getElem inside) (bounds side).2 timed peer
  rw [apart] at submitted
  cases tick? with
  | some tick =>
    rw [submitted]
    exact ⟨rfl, nofun⟩
  | none =>
    rw [submitted]
    refine ⟨rfl, fun _ => ⟨firsts, knows, fun other => ?_, fun place first found => ?_⟩⟩
    · refine ⟨?_, Nat.le_trans (bounds other).2
        (Nat.add_le_add_right (le_update_add_one counts side other) history)⟩
      by_cases same : other = side
      · subst same
        rw [Function.update_self]
        exact inside
      · rw [Function.update_of_ne same]
        exact (bounds other).1
    · obtain ⟨other, before, same⟩ := given place first found
      exact ⟨other, Nat.lt_of_lt_of_le before (le_update_add_one counts side other), same⟩

/-- No more opinions come in than there are. -/
theorem counts_le {submissions : List (Bool × DriftOpinion)}
    (exchange : Exchange history opinions counts submissions)
    (side : Bool) : counts side ≤ (opinions side).length := by
  induction exchange with
  | start => exact Nat.zero_le _
  | @submit counts _ _ latest _ _ here ih =>
    by_cases same : side = latest
    · subst same
      rw [Function.update_self]
      exact (List.getElem?_eq_some_iff.mp here).1
    · rw [Function.update_of_ne same]
      exact ih

/-- As long as no two opinions on one window part, nobody is named; the first window on which they do
names somebody as soon as both opinions on it are in. -/
theorem names_first {scope : ScopeId} {submissions : List (Bool × DriftOpinion)}
    (exchange : Exchange history opinions counts submissions) (mono : StrictMono clock)
    (timed : ∀ side, Timed clock (opinions side))
    (ofScope : ∀ side, ∀ opinion ∈ opinions side, opinion.scope = scope) (ids : Bool → PeerId)
    {arbiter : DriftArbiter} (room : arbiter.history = history) (unheard : arbiter.verdicts scope = {}) :
    let weighed := arbiter.weigh (submissions.map fun submission => (ids submission.1, submission.2))
    weighed.2.history = history ∧
    ((∀ place, (∀ side, place < counts side) → PartsAt opinions place none) →
      (∀ answer ∈ weighed.1, answer = none) ∧
        Leaves history clock opinions counts (weighed.2.verdicts scope)) ∧
    ∀ place tick, (∀ side, place < counts side) → (∀ earlier < place, PartsAt opinions earlier none) →
      PartsAt opinions place (some tick) →
      ∃ side, weighed.1.findSome? id = some ⟨scope, tick, ids side⟩ := by
  induction exchange with
  | start =>
    refine ⟨room, fun _ => ⟨nofun, ?_⟩, fun place _ before => absurd (before true) (Nat.not_lt_zero place)⟩
    rw [List.map_nil, DriftArbiter.weigh, unheard]
    exact leaves_start history clock opinions
  | @submit counts submissions opinion side _ near here ih =>
    obtain ⟨kept, silent, naming⟩ := ih
    have own := ofScope side opinion (List.mem_of_getElem? here)
    have time := timed side _ opinion here
    simp only [List.map_append, List.map_singleton, DriftArbiter.weigh_concat]
    generalize arbiter.weigh (submissions.map fun submission => (ids submission.1, submission.2)) =
      weighed at kept silent naming
    obtain ⟨answers, arbiter⟩ := weighed
    dsimp only at kept silent naming ⊢
    have after := DriftArbiter.verdicts_submit_self arbiter (ids side) opinion
    have answer : (arbiter.submit (ids side) opinion).1 =
        ((arbiter.verdicts opinion.scope).submit arbiter.history (ids side) opinion).1 := rfl
    rw [kept] at after answer
    subst own
    refine ⟨kept, fun quiet => ?_, fun place tick both earlier parts => ?_⟩
    · obtain ⟨nobody, leaves⟩ := silent fun place both =>
        quiet place fun other => Nat.lt_of_lt_of_le (both other) (le_update_add_one counts side other)
      have submitted : (arbiter.submit (ids side) opinion).1 = none ∧
          Leaves history clock opinions (Function.update counts side (counts side + 1))
            ((arbiter.submit (ids side) opinion).2.verdicts opinion.scope) := by
        rw [after, answer]
        rcases Nat.lt_or_ge (counts side) (counts (!side)) with behind | ahead
        · have parts := quiet (counts side) (lt_update_of_behind behind)
          obtain ⟨nobody, left⟩ := leaves.behind mono here time behind parts (ids side)
          exact ⟨nobody, left rfl⟩
        · exact leaves.ahead mono near here time ahead (ids side)
      refine ⟨fun other member => ?_, submitted.2⟩
      rcases List.mem_append.mp member with member | member
      · exact nobody other member
      · rw [List.mem_singleton.mp member]
        exact submitted.1
    -- Either the first window on which they part was complete before, and somebody is named already, or
    -- this opinion completes it.
    · by_cases came : ∀ other, place < counts other
      · obtain ⟨named, found⟩ := naming place tick came earlier parts
        exact ⟨named, by rw [List.findSome?_append, found]; rfl⟩
      · obtain ⟨rfl, behind⟩ := eq_of_lt_update both came
        obtain ⟨nobody, leaves⟩ := silent fun place both => earlier place (both side)
        obtain ⟨named, -⟩ := leaves.behind mono here time behind parts (ids side)
        have silence : answers.findSome? id = none := List.findSome?_eq_none_iff.mpr nobody
        refine ⟨side, ?_⟩
        rw [List.findSome?_append, silence, answer, named]
        rfl

end Exchange

end Lockstep
