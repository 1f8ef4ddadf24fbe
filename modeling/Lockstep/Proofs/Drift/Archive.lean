import Lockstep.Proofs.Drift
import Mathlib.Data.Finset.Card
import Mathlib.Data.Finset.Dedup

/-! # What an arbiter may forget

An arbiter keeps the references of the latest ticks of a scope only. It answers all the same as an
archive that keeps every opinion and passes over those on ticks that enough later ones have followed
(`DriftArbiter.forgets_what_no_answer_needs`). What carries this is that the references are those of
the latest ticks whatever the order in which opinions come in: a tick before the horizon stays
there, so no later opinion on it is ever taken for the first one.
-/

namespace Lockstep

/-- What an arbiter is asked to do. -/
inductive ArbiterCall where
  | submit (peer : PeerId) (opinion : DriftOpinion)
  | clear (scope : ScopeId)

/-- The scope that a call is about. -/
def ArbiterCall.scope : ArbiterCall → ScopeId
  | submit _ opinion => opinion.scope
  | clear scope => scope

/-! ## The tick at which opinions part -/

namespace DriftOpinion

/-- The tick of the first place at which two lists of samples differ: the earlier one of the ticks that
stand there. -/
def partingTick? (first second : List DriftSample) : Option Tick :=
  ((List.range (max first.length second.length)).find? fun place =>
    first[place]? ≠ second[place]?).bind fun place =>
      ((first[place]?.toList ++ second[place]?.toList).map (·.tick)).min?

/-- A first sample that both lists have does not matter. -/
theorem partingTick?_cons_self (sample : DriftSample) (first second : List DriftSample) :
    partingTick? (sample :: first) (sample :: second) = partingTick? first second := by
  simp only [partingTick?, List.length_cons, Nat.add_max_add_right, List.range_succ_eq_map,
    List.find?_cons, List.getElem?_cons_zero, ne_eq, not_true_eq_false, decide_false, List.find?_map,
    Option.bind_map]
  -- Behind the first sample each place is one further than in the shorter lists.
  rfl

theorem firstDifferenceOf_eq_partingTick? (first second : List DriftSample) :
    firstDifferenceOf first second = partingTick? first second := by
  induction first generalizing second with
  | nil =>
    cases second with
    | nil => rfl
    | cons b bs => simp [firstDifferenceOf, partingTick?, List.range_succ_eq_map]
  | cons a as ih =>
    cases second with
    | nil => simp [firstDifferenceOf, partingTick?, List.range_succ_eq_map]
    | cons b bs =>
      rw [firstDifferenceOf]
      by_cases same : a = b
      · rw [if_pos same, ih, same, partingTick?_cons_self]
      · simp [partingTick?, List.range_succ_eq_map, same, List.min?_cons]

/-- Only equal lists do not part. -/
theorem partingTick?_eq_none_iff {first second : List DriftSample} :
    partingTick? first second = none ↔ first = second := by
  rw [← firstDifferenceOf_eq_partingTick?, firstDifferenceOf_eq_none_iff]

end DriftOpinion

/-! ## Archives -/

/-- Every opinion on a scope since the scope was last cleared, in the order in which they came in, and
the peers that have been named since. -/
structure ScopeArchive where
  opinions : List DriftOpinion := []
  named : List PeerId := []

namespace ScopeArchive

/-- The opinion that came in first on a tick. -/
def first? (archive : ScopeArchive) (tick : Tick) : Option DriftOpinion :=
  archive.opinions.find? (·.tick = tick)

/-- The ticks that there are opinions on. -/
def ticks (archive : ScopeArchive) : Finset Tick := (archive.opinions.map (·.tick)).toFinset

/-- Those of them that are later than a tick. -/
def later (archive : ScopeArchive) (tick : Tick) : Finset Tick := archive.ticks.filter (tick < ·)

/-- What is to be said of an opinion. Nothing if it is the first one on its tick, if there are opinions
on enough later ticks already, if it agrees with the first one, or if its peer has been named. -/
def verdict (history : Nat) (archive : ScopeArchive) (peer : PeerId) (opinion : DriftOpinion) :
    Option Divergence :=
  match archive.first? opinion.tick with
  | none => none
  | some reference =>
    if history ≤ (archive.later opinion.tick).card then none
    else if reference.samples = opinion.samples then none
    else if peer ∈ archive.named then none
    else (DriftOpinion.partingTick? reference.samples opinion.samples).map
      (⟨opinion.scope, ·, peer⟩)

/-- Add an opinion. -/
def submit (history : Nat) (archive : ScopeArchive) (peer : PeerId) (opinion : DriftOpinion) :
    Option Divergence × ScopeArchive :=
  let verdict := archive.verdict history peer opinion
  (verdict, {
    opinions := archive.opinions ++ [opinion]
    named := if verdict.isSome then peer :: archive.named else archive.named })

variable {archive : ScopeArchive} {tick : Tick} {opinion : DriftOpinion}

theorem mem_ticks : tick ∈ archive.ticks ↔ ∃ opinion ∈ archive.opinions, opinion.tick = tick := by
  simp [ticks]

theorem mem_ticks_of_first? (found : archive.first? tick = some opinion) : tick ∈ archive.ticks :=
  mem_ticks.mpr ⟨opinion, List.mem_of_find?_eq_some found, by simpa using List.find?_some found⟩

theorem first?_eq_none_iff : archive.first? tick = none ↔ tick ∉ archive.ticks := by
  simp [first?, mem_ticks]

theorem mem_later {other : Tick} :
    other ∈ archive.later tick ↔ other ∈ archive.ticks ∧ tick < other := by
  simp [later]

/-- One more opinion is the first one on its tick only if there is none on it. -/
theorem first?_append (opinions : List DriftOpinion) (named named' : List PeerId) :
    (⟨opinions ++ [opinion], named⟩ : ScopeArchive).first? tick =
      ((⟨opinions, named'⟩ : ScopeArchive).first? tick).or
        (if opinion.tick = tick then some opinion else none) := by
  simp [first?, List.find?_append, List.find?_singleton]

theorem mem_ticks_append (opinions : List DriftOpinion) (named named' : List PeerId) :
    tick ∈ (⟨opinions ++ [opinion], named⟩ : ScopeArchive).ticks ↔
      tick ∈ (⟨opinions, named'⟩ : ScopeArchive).ticks ∨ tick = opinion.tick := by
  simp [ticks, eq_comm, or_comm]

variable {history : Nat} {peer : PeerId} {reference : DriftOpinion}

theorem verdict_of_unknown (unknown : archive.first? opinion.tick = none) :
    archive.verdict history peer opinion = none := by
  rw [verdict, unknown]

theorem verdict_of_followed (followed : history ≤ (archive.later opinion.tick).card) :
    archive.verdict history peer opinion = none := by
  rw [verdict]
  split
  next => rfl
  next => rw [if_pos followed]

/-- Of an opinion on a recent tick is said where it parts from the first one, if its peer has not been
named. -/
theorem verdict_of_known (known : archive.first? opinion.tick = some reference)
    (recent : (archive.later opinion.tick).card < history) :
    archive.verdict history peer opinion =
      if peer ∈ archive.named then none
      else (reference.firstDifference opinion).map (⟨opinion.scope, ·, peer⟩) := by
  rw [verdict, known, DriftOpinion.firstDifference,
    DriftOpinion.firstDifferenceOf_eq_partingTick?]
  simp only [if_neg (Nat.not_le.mpr recent)]
  split
  next same => rw [DriftOpinion.partingTick?_eq_none_iff.mpr same, Option.map_none, ite_self]
  next => rfl

end ScopeArchive

/-- Keeps every opinion. A history of zero counts as one. -/
structure DriftArchive where
  history : Nat
  scopes : ScopeId → ScopeArchive := fun _ => {}

namespace DriftArchive

def new (history : Nat) : DriftArchive := { history := max history 1 }

/-- Do what is asked; only the submission of an opinion is answered. -/
def take (archive : DriftArchive) : ArbiterCall → Option Divergence × DriftArchive
  | .submit peer opinion =>
    let (verdict, kept) := (archive.scopes opinion.scope).submit archive.history peer opinion
    (verdict, { archive with scopes := fun scope =>
      if scope = opinion.scope then kept else archive.scopes scope })
  | .clear cleared =>
    (none, { archive with scopes := fun scope =>
      if scope = cleared then {} else archive.scopes scope })

/-- The answers to calls, one after another. -/
def answers : DriftArchive → List ArbiterCall → List (Option Divergence)
  | _, [] => []
  | archive, call :: calls => (archive.take call).1 :: (archive.take call).2.answers calls

end DriftArchive

namespace DriftArbiter

/-- Do what is asked; only the submission of an opinion is answered. -/
def take (arbiter : DriftArbiter) : ArbiterCall → Option Divergence × DriftArbiter
  | .submit peer opinion => arbiter.submit peer opinion
  | .clear scope => (none, arbiter.clear scope)

/-- The answers to calls, one after another. -/
def answers : DriftArbiter → List ArbiterCall → List (Option Divergence)
  | _, [] => []
  | arbiter, call :: calls => (arbiter.take call).1 :: (arbiter.take call).2.answers calls

/-- What calls leave. -/
def after (arbiter : DriftArbiter) (calls : List ArbiterCall) : DriftArbiter :=
  calls.foldl (fun arbiter call => (arbiter.take call).2) arbiter

/-- The answers to those of several calls that are about a scope. -/
def answersAbout (scope : ScopeId) : DriftArbiter → List ArbiterCall → List (Option Divergence)
  | _, [] => []
  | arbiter, call :: calls =>
    let others := answersAbout scope (arbiter.take call).2 calls
    if call.scope = scope then (arbiter.take call).1 :: others else others

end DriftArbiter

/-! ## What is kept -/

namespace SortedMap

variable {κ α : Type} [Ord κ] [Std.LawfulEqOrd κ] [DecidableEq κ]

theorem card_keys (map : SortedMap κ α) : map.keys.toFinset.card = map.size := by
  rw [List.toFinset_card_of_nodup map.nodup_keys, keys, List.length_map, size]

theorem size_insert [Std.TransOrd κ] {map : SortedMap κ α} {key : κ} (fresh : map.get? key = none) (value : α) :
    (map.insert key value).size = map.size + 1 := by
  have keys : (map.insert key value).keys.toFinset = Insert.insert key map.keys.toFinset := by
    ext other
    by_cases same : other = key
    · subst same
      simp [mem_keys_iff]
    · simp [mem_keys_iff, get?_insert_of_ne map value same, same]
  have absent : key ∉ map.keys.toFinset := by simp [mem_keys_iff, fresh]
  rw [← card_keys, keys, Finset.card_insert_of_notMem absent, card_keys]

end SortedMap

namespace ScopeVerdicts

variable {history : Nat} {verdicts : ScopeVerdicts} {archive : ScopeArchive}

theorem evict_of_le (few : verdicts.references.size ≤ history) :
    verdicts.evict history = verdicts := by
  unfold ScopeVerdicts.evict
  simp only [Nat.sub_eq_zero_of_le few, if_true]
  split <;> rfl

/-- In ascending order, the entries from one on are those with keys that are no smaller. -/
theorem filter_eq_drop {entries : List (Tick × DriftOpinion)} {entry : Tick × DriftOpinion}
    {rest : List (Tick × DriftOpinion)} {count : Nat}
    (ascending : entries.Pairwise fun a b => compare a.1 b.1 = .lt)
    (dropped : entries.drop count = entry :: rest) :
    entries.filter (fun other => entry.1 ≤ other.1) = entries.drop count := by
  rw [← List.take_append_drop count entries] at ascending
  obtain ⟨-, behind, apart⟩ := List.pairwise_append.mp ascending
  rw [dropped] at behind apart
  have before : (entries.take count).filter (fun other => entry.1 ≤ other.1) = [] := by
    refine List.filter_eq_nil_iff.mpr fun other member => ?_
    have below := compareOfLessAndEq_eq_lt.mp (apart other member entry List.mem_cons_self)
    simpa using below
  have kept : (entries.drop count).filter (fun other => entry.1 ≤ other.1) = entries.drop count := by
    rw [dropped]
    refine List.filter_eq_self.mpr fun other member => decide_eq_true ?_
    rcases List.mem_cons.mp member with rfl | member
    · exact UInt32.le_refl _
    · exact UInt32.le_of_lt
        (compareOfLessAndEq_eq_lt.mp ((List.pairwise_cons.mp behind).1 other member))
  conv_lhs => rw [← List.take_append_drop count entries]
  rw [List.filter_append, before, List.nil_append, kept]

/-- When references go, as many as fit into the history stay, and the horizon is the first of them. -/
theorem evict_of_lt (some_ : 0 < history) (many : history < verdicts.references.size) :
    ∃ first ∈ verdicts.references.keys, verdicts.evict history = { verdicts with
        references := verdicts.references.filter fun tick _ => first ≤ tick
        horizon := some first } ∧
      (verdicts.references.filter fun tick _ => first ≤ tick).size = history := by
  have excess : verdicts.references.size - history ≠ 0 := by omega
  have left : (verdicts.references.entries.drop
      (verdicts.references.size - history)).length = history := by
    have size : verdicts.references.entries.length = verdicts.references.size := rfl
    rw [List.length_drop]
    omega
  cases dropped : verdicts.references.entries.drop (verdicts.references.size - history) with
  | nil =>
    rw [dropped] at left
    exact absurd left (Nat.ne_of_lt some_)
  | cons entry rest =>
    have listed : entry ∈ verdicts.references.entries :=
      List.mem_of_mem_drop (dropped ▸ List.mem_cons_self)
    refine ⟨entry.1, List.mem_map_of_mem listed, ?_, ?_⟩
    · unfold ScopeVerdicts.evict
      simp only [SortedMap.keys, ← List.map_drop, dropped, List.map_cons, if_neg excess]
    · have kept := filter_eq_drop verdicts.references.sorted dropped
      exact (congrArg List.length kept).trans left

/-- What an arbiter remembers of a scope, beside an archive of it: the first opinions on the latest
ticks. Ticks of the archive that are missing lie before the horizon, and once there is a horizon, as
many ticks lie behind it as fit into the history. -/
structure Recalls (history : Nat) (verdicts : ScopeVerdicts) (archive : ScopeArchive) : Prop where
  kept {tick : Tick} {reference : DriftOpinion} : verdicts.references.get? tick = some reference →
    archive.first? tick = some reference
  few : verdicts.references.size ≤ history
  gone {tick : Tick} : tick ∈ archive.ticks → verdicts.references.get? tick = none →
    ∃ first, verdicts.horizon = some first ∧ tick < first
  full {first : Tick} : verdicts.horizon = some first → verdicts.references.size = history
  behind {first tick : Tick} {reference : DriftOpinion} : verdicts.horizon = some first →
    verdicts.references.get? tick = some reference → first ≤ tick
  named : verdicts.diverged = archive.named

namespace Recalls

theorem empty : Recalls history {} {} where
  kept found := by cases found
  few := Nat.zero_le _
  gone member := by cases member
  full horizon := by cases horizon
  behind horizon := by cases horizon
  named := rfl

/-- A tick before the horizon has been followed by enough later ones. -/
theorem history_le_later (recalls : Recalls history verdicts archive) {first tick : Tick}
    (horizon : verdicts.horizon = some first) (before : tick < first) :
    history ≤ (archive.later tick).card := by
  rw [← recalls.full horizon, ← SortedMap.card_keys]
  refine Finset.card_le_card fun other member => ?_
  obtain ⟨reference, found⟩ := SortedMap.mem_keys_iff.mp (List.mem_toFinset.mp member)
  exact ScopeArchive.mem_later.mpr ⟨ScopeArchive.mem_ticks_of_first? (recalls.kept found),
    UInt32.lt_of_lt_of_le before (recalls.behind horizon found)⟩

/-- A tick that is kept has not. -/
theorem later_lt_history (recalls : Recalls history verdicts archive) {tick : Tick}
    {reference : DriftOpinion} (found : verdicts.references.get? tick = some reference) :
    (archive.later tick).card < history := by
  refine Nat.lt_of_lt_of_le ?_ recalls.few
  rw [← SortedMap.card_keys]
  have here : tick ∈ verdicts.references.keys.toFinset :=
    List.mem_toFinset.mpr (SortedMap.mem_keys_iff.mpr ⟨reference, found⟩)
  refine Finset.card_lt_card (Finset.ssubset_iff_of_subset ?_ |>.mpr ⟨tick, here, ?_⟩)
  · intro other member
    obtain ⟨listed, after⟩ := ScopeArchive.mem_later.mp member
    refine List.mem_toFinset.mpr (SortedMap.mem_keys_iff.mpr (Option.ne_none_iff_exists'.mp ?_))
    intro missing
    obtain ⟨first, horizon, before⟩ := recalls.gone listed missing
    have order := recalls.behind horizon found
    exact UInt32.lt_irrefl _
      (UInt32.lt_of_lt_of_le (UInt32.lt_trans after before) order)
  · intro member
    exact UInt32.lt_irrefl _ (ScopeArchive.mem_later.mp member).2

/-- An opinion on a tick of which another is the first one, or which lies before the horizon, is only
archived. -/
theorem archived (recalls : Recalls history verdicts archive) {opinion : DriftOpinion}
    (settled : verdicts.references.get? opinion.tick = none →
      ∃ first, verdicts.horizon = some first ∧ opinion.tick < first)
    {diverged named : List PeerId} (same : diverged = named) :
    Recalls history { verdicts with diverged } ⟨archive.opinions ++ [opinion], named⟩ where
  kept {tick reference} found := by
    rw [ScopeArchive.first?_append _ _ archive.named, recalls.kept found]
    rfl
  few := recalls.few
  gone {tick} member missing := by
    rcases (ScopeArchive.mem_ticks_append _ _ archive.named).mp member with member | rfl
    · exact recalls.gone member missing
    · exact settled missing
  full := recalls.full
  behind := recalls.behind
  named := same

/-- There is no opinion on a tick that is missing behind the horizon. -/
theorem unknown (recalls : Recalls history verdicts archive) {tick : Tick}
    (recent : ∀ first, verdicts.horizon = some first → first ≤ tick)
    (missing : verdicts.references.get? tick = none) : archive.first? tick = none := by
  refine ScopeArchive.first?_eq_none_iff.mpr fun member => ?_
  obtain ⟨first, horizon, before⟩ := recalls.gone member missing
  exact UInt32.lt_irrefl _ (UInt32.lt_of_lt_of_le before (recent first horizon))

/-- The first opinion on a tick that does not lie before the horizon becomes a reference, and the
earliest tick may go for it. -/
theorem adopted (recalls : Recalls history verdicts archive) (some_ : 0 < history)
    {opinion : DriftOpinion} (recent : ∀ first, verdicts.horizon = some first → first ≤ opinion.tick)
    (fresh : verdicts.references.get? opinion.tick = none) :
    Recalls history (evict history { verdicts with
        references := verdicts.references.insert opinion.tick opinion })
      ⟨archive.opinions ++ [opinion], archive.named⟩ := by
  have unknown := recalls.unknown recent fresh
  have firsts {tick : Tick} {reference : DriftOpinion}
      (found : (verdicts.references.insert opinion.tick opinion).get? tick = some reference) :
      (⟨archive.opinions ++ [opinion], archive.named⟩ : ScopeArchive).first? tick =
        some reference := by
    rw [ScopeArchive.first?_append _ _ archive.named]
    rcases SortedMap.get?_insert_eq_some.mp found with ⟨rfl, rfl⟩ | ⟨-, found⟩
    · rw [unknown, if_pos rfl, Option.none_or]
    · rw [recalls.kept found, Option.some_or]
  have missed {tick : Tick}
      (member : tick ∈ (⟨archive.opinions ++ [opinion], archive.named⟩ : ScopeArchive).ticks)
      (missing : (verdicts.references.insert opinion.tick opinion).get? tick = none) :
      ∃ first, verdicts.horizon = some first ∧ tick < first := by
    by_cases same : tick = opinion.tick
    · rw [same, SortedMap.get?_insert_self] at missing
      cases missing
    · rw [SortedMap.get?_insert_of_ne _ _ same] at missing
      have before := (ScopeArchive.mem_ticks_append _ _ archive.named).mp member
      exact recalls.gone (before.resolve_right same) missing
  have grown := SortedMap.size_insert fresh opinion
  by_cases room : (verdicts.references.insert opinion.tick opinion).size ≤ history
  · rw [evict_of_le room]
    have open_ {first : Tick} (horizon : verdicts.horizon = some first) : False := by
      have full := recalls.full horizon
      omega
    exact {
      kept := firsts
      few := room
      gone := missed
      full := fun horizon => (open_ horizon).elim
      behind := fun horizon => (open_ horizon).elim
      named := recalls.named }
  · have many : history <
        { verdicts with references := verdicts.references.insert opinion.tick opinion }.references.size :=
      Nat.lt_of_not_le room
    obtain ⟨first, listed, evicted, size⟩ := evict_of_lt some_ many
    rw [evicted]
    -- the horizon never moves back: it is a tick behind the old one
    have forward {old : Tick} (horizon : verdicts.horizon = some old) : old ≤ first := by
      obtain ⟨reference, found⟩ := SortedMap.mem_keys_iff.mp listed
      rcases SortedMap.get?_insert_eq_some.mp found with ⟨rfl, -⟩ | ⟨-, found⟩
      · exact recent old horizon
      · exact recalls.behind horizon found
    refine {
      kept := fun {tick reference} found => ?_
      few := Nat.le_of_eq size
      gone := fun {tick} member missing => ⟨first, rfl, ?_⟩
      full := fun _ => size
      behind := fun {old tick reference} horizon found => ?_
      named := recalls.named }
    · rw [SortedMap.get?_filter, Option.filter_eq_some_iff] at found
      exact firsts found.1
    · rw [SortedMap.get?_filter] at missing
      cases here : (verdicts.references.insert opinion.tick opinion).get? tick with
      | none =>
        obtain ⟨old, horizon, before⟩ := missed member here
        exact UInt32.lt_of_lt_of_le before (forward horizon)
      | some reference =>
        rw [here] at missing
        simpa using missing
    · cases horizon
      rw [SortedMap.get?_filter, Option.filter_eq_some_iff] at found
      exact of_decide_eq_true found.2

/-- An opinion is weighed as by the archive, and the two stay beside each other. -/
theorem submit (recalls : Recalls history verdicts archive) (some_ : 0 < history) (peer : PeerId)
    (opinion : DriftOpinion) :
    (verdicts.submit history peer opinion).1 = archive.verdict history peer opinion ∧
      Recalls history (verdicts.submit history peer opinion).2
        (archive.submit history peer opinion).2 := by
  rw [ScopeVerdicts.submit, ScopeArchive.submit]
  cases early : verdicts.horizon.any (opinion.tick < ·) with
  | true =>
    obtain ⟨first, horizon, before⟩ := (Option.any_eq_true _ _).mp early
    have before : opinion.tick < first := of_decide_eq_true before
    rw [if_pos rfl, ScopeArchive.verdict_of_followed (recalls.history_le_later horizon before)]
    exact ⟨rfl, recalls.archived (fun _ => ⟨first, horizon, before⟩) recalls.named⟩
  | false =>
    have recent (first : Tick) (horizon : verdicts.horizon = some first) : first ≤ opinion.tick := by
      rw [horizon] at early
      simpa using early
    rw [if_neg Bool.false_ne_true]
    cases found : verdicts.references.get? opinion.tick with
    | none =>
      rw [ScopeArchive.verdict_of_unknown (recalls.unknown recent found)]
      exact ⟨rfl, recalls.adopted some_ recent found⟩
    | some reference =>
      have settled (missing : verdicts.references.get? opinion.tick = none) :
          ∃ first, verdicts.horizon = some first ∧ opinion.tick < first := by
        cases found.symm.trans missing
      rw [ScopeArchive.verdict_of_known (recalls.kept found) (recalls.later_lt_history found)]
      cases differs : reference.firstDifference opinion with
      | none =>
        simp only [differs, Option.map_none, ite_self]
        exact ⟨trivial, recalls.archived settled recalls.named⟩
      | some tick =>
        by_cases named : peer ∈ archive.named
        · have known : verdicts.diverged.contains peer = true := by simpa [recalls.named] using named
          simp only [differs, known, named, if_true]
          exact ⟨trivial, recalls.archived settled recalls.named⟩
        · have unknown : verdicts.diverged.contains peer = false := by
            simpa [recalls.named] using named
          simp only [differs, unknown, named, Bool.false_eq_true, if_false, Option.map_some]
          exact ⟨trivial, recalls.archived settled (congrArg _ recalls.named)⟩

end Recalls

end ScopeVerdicts

/-! ## Arbiters -/

namespace DriftArbiter

variable {arbiter : DriftArbiter} {archive : DriftArchive} {scope : ScopeId}

theorem history_take (arbiter : DriftArbiter) (call : ArbiterCall) :
    (arbiter.take call).2.history = arbiter.history := by
  cases call with
  | submit peer opinion => rfl
  | clear scope => rfl

theorem history_after (arbiter : DriftArbiter) (calls : List ArbiterCall) :
    (arbiter.after calls).history = arbiter.history := by
  induction calls generalizing arbiter with
  | nil => rfl
  | cons call calls ih => exact (ih _).trans (history_take arbiter call)

theorem verdicts_clear_self (arbiter : DriftArbiter) (scope : ScopeId) :
    (arbiter.clear scope).verdicts scope = {} := by
  rw [clear, verdicts, SortedMap.get?_erase_self]
  rfl

theorem verdicts_clear_of_ne (arbiter : DriftArbiter) {scope other : ScopeId} (apart : other ≠ scope) :
    (arbiter.clear scope).verdicts other = arbiter.verdicts other := by
  rw [clear, verdicts, SortedMap.get?_erase_of_ne _ apart, verdicts]

/-- A call leaves what is remembered of other scopes. -/
theorem verdicts_take_of_ne {call : ArbiterCall} (other : call.scope ≠ scope) :
    (arbiter.take call).2.verdicts scope = arbiter.verdicts scope := by
  cases call with
  | submit peer opinion =>
    have other : scope ≠ opinion.scope := Ne.symm other
    rw [take, DriftArbiter.submit, verdicts, SortedMap.get?_insert_of_ne _ _ other, verdicts]
  | clear cleared => exact verdicts_clear_of_ne arbiter (Ne.symm other)

/-- What an arbiter remembers, beside an archive. -/
structure Recalls (arbiter : DriftArbiter) (archive : DriftArchive) : Prop where
  some_ : 0 < arbiter.history
  history : arbiter.history = archive.history
  scopes (scope : ScopeId) :
    (arbiter.verdicts scope).Recalls arbiter.history (archive.scopes scope)

theorem recalls_new (history : Nat) : (new history).Recalls (.new history) where
  some_ := Nat.le_max_right history 1
  history := rfl
  scopes _ := .empty

/-- Every call is answered as by the archive. -/
theorem Recalls.take (recalls : arbiter.Recalls archive) (call : ArbiterCall) :
    (arbiter.take call).1 = (archive.take call).1 ∧
      (arbiter.take call).2.Recalls (archive.take call).2 := by
  have elsewhere {scope : ScopeId} (other : call.scope ≠ scope) :
      (arbiter.take call).2.verdicts scope = arbiter.verdicts scope := verdicts_take_of_ne other
  cases call with
  | submit peer opinion =>
    obtain ⟨alike, recalled⟩ :=
      (recalls.scopes opinion.scope).submit recalls.some_ peer opinion
    refine ⟨alike.trans ?_, recalls.some_, recalls.history, fun scope => ?_⟩
    · rw [DriftArchive.take, recalls.history]
      rfl
    · by_cases same : scope = opinion.scope
      · subst same
        rw [DriftArchive.take, ← recalls.history]
        simp only [if_true]
        rw [DriftArbiter.take, verdicts_submit_self]
        exact recalled
      · rw [elsewhere (Ne.symm same), DriftArchive.take]
        simp only [if_neg same]
        exact recalls.scopes scope
  | clear cleared =>
    refine ⟨rfl, recalls.some_, recalls.history, fun scope => ?_⟩
    by_cases same : scope = cleared
    · subst same
      rw [DriftArbiter.take, DriftArchive.take, verdicts_clear_self]
      simp only [if_true]
      exact .empty
    · rw [elsewhere (Ne.symm same), DriftArchive.take]
      simp only [if_neg same]
      exact recalls.scopes scope

theorem Recalls.answers (recalls : arbiter.Recalls archive) (calls : List ArbiterCall) :
    arbiter.answers calls = archive.answers calls := by
  induction calls generalizing arbiter archive with
  | nil => rfl
  | cons call calls ih =>
    obtain ⟨alike, recalled⟩ := recalls.take call
    rw [DriftArbiter.answers, DriftArchive.answers, alike, ih recalled]

theorem Recalls.after (recalls : arbiter.Recalls archive) (calls : List ArbiterCall) :
    ∃ left, (arbiter.after calls).Recalls left := by
  induction calls generalizing arbiter archive with
  | nil => exact ⟨archive, recalls⟩
  | cons call calls ih => exact ih (recalls.take call).2

/-- What is answered about a scope depends on what is remembered of it, and on nothing else. -/
theorem take_congr {other : DriftArbiter} (history : arbiter.history = other.history)
    {call : ArbiterCall} (same : arbiter.verdicts call.scope = other.verdicts call.scope) :
    (arbiter.take call).1 = (other.take call).1 ∧
      (arbiter.take call).2.verdicts call.scope = (other.take call).2.verdicts call.scope := by
  cases call with
  | submit peer opinion =>
    have same : arbiter.verdicts opinion.scope = other.verdicts opinion.scope := same
    simp only [take, ArbiterCall.scope, verdicts_submit_self, same, history]
    exact ⟨by rw [DriftArbiter.submit, DriftArbiter.submit, same, history], trivial⟩
  | clear cleared =>
    refine ⟨rfl, ?_⟩
    simp only [take, ArbiterCall.scope, clear, verdicts, SortedMap.get?_erase_self]

/-- The calls about other scopes may as well not be made. -/
theorem answersAbout_eq {other : DriftArbiter} (history : arbiter.history = other.history)
    (same : arbiter.verdicts scope = other.verdicts scope) (calls : List ArbiterCall) :
    arbiter.answersAbout scope calls = other.answers (calls.filter (·.scope = scope)) := by
  induction calls generalizing arbiter other with
  | nil => rfl
  | cons call calls ih =>
    rw [answersAbout]
    by_cases about : call.scope = scope
    · obtain ⟨alike, left⟩ := take_congr history (about ▸ same)
      rw [if_pos about, List.filter_cons_of_pos (by simpa using about), DriftArbiter.answers, alike,
        ih (by rw [history_take, history_take, history]) (about ▸ left)]
    · rw [if_neg about, List.filter_cons_of_neg (by simpa using about)]
      exact ih (by rw [history_take, history]) ((verdicts_take_of_ne about).trans same)

/-- An arbiter answers whatever it is asked as an archive does that never forgets an opinion. It never
keeps more references of a scope than its history allows, and what it answers about one scope is what
it answers if nothing is said or cleared of others. -/
theorem forgets_what_no_answer_needs (history : Nat) (calls : List ArbiterCall) :
    (new history).answers calls = (DriftArchive.new history).answers calls ∧
      (∀ scope, (((new history).after calls).verdicts scope).references.size ≤ max history 1) ∧
      ∀ scope, (new history).answersAbout scope calls =
        (new history).answers (calls.filter (·.scope = scope)) := by
  refine ⟨(recalls_new history).answers calls, fun scope => ?_, fun scope => ?_⟩
  · obtain ⟨left, recalls⟩ := (recalls_new history).after calls
    have few := (recalls.scopes scope).few
    rwa [history_after] at few
  · exact answersAbout_eq rfl rfl calls

end DriftArbiter

end Lockstep
