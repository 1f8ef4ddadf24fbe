import Lockstep.Proofs.Peer.Moves
import Lockstep.Proofs.World.Lab

/-! # Divergences are news once

The news of a peer are the divergences that come up, be it that the arbiter names them or that a notice
brings them, together with what listeners are told of them, what is taken, and which scopes are cleared.
What the peer remembers keeps up with its news at any time (`KeepsUp`): a divergence has not been heard of
since its scope was cleared, or waits to be taken, or has been taken. So between two clearings of a scope
each listener is told of a divergence once, and it is handed out once
(`Reporting.news_once`).
-/

namespace Lockstep

/-- Something that a peer lets others know of divergences, or that others ask of it. -/
inductive News where
  | listens (listener : Listener)
  /-- A divergence comes up, and listeners are told of it, or are not. -/
  | reported (divergence : Divergence) (told : List (Listener × Divergence))
  | taken (divergences : List Divergence)
  | cleared (scope : ScopeId)
  deriving DecidableEq, Repr

/-- Where a divergence stands, as far as it is news. -/
inductive Standing where
  | unheard
  | pending
  | taken
  deriving DecidableEq, Repr

/-- How often a divergence waits to be taken. -/
def Standing.waiting : Standing → Nat
  | pending => 1
  | _ => 0

namespace News

def listener? : News → Option Listener
  | listens listener => some listener
  | _ => none

/-- What listeners are told. -/
def told : News → List (Listener × Divergence)
  | reported _ told => told
  | _ => []

/-- What is handed out. -/
def takes : News → List Divergence
  | taken divergences => divergences
  | _ => []

def isReportOf (divergence : Divergence) : News → Bool
  | reported other _ => other == divergence
  | _ => false

def isTaking : News → Bool
  | taken _ => true
  | _ => false

/-- Where a divergence stands after the next piece of news. -/
def stand (divergence : Divergence) (standing : Standing) : News → Standing
  | listens _ => standing
  | reported other _ => if other = divergence ∧ standing = .unheard then .pending else standing
  | taken _ => if standing = .pending then .taken else standing
  | cleared scope => if scope = divergence.scope then .unheard else standing

/-- Everyone who listens, in the order in which they came. -/
def listeners (news : List News) : List Listener := news.filterMap listener?

/-- Where a divergence stands after all the news. -/
def standing (news : List News) (divergence : Divergence) : Standing :=
  news.foldl (stand divergence) .unheard

/-- A piece of news is as it has to be after what is past: only of a divergence that is unheard of are
listeners told, all of them, and what is handed out is what is pending. -/
def Fits (past : List News) : News → Prop
  | listens _ => True
  | reported divergence told => told =
      if standing past divergence = .unheard then (listeners past).map (·, divergence) else []
  | taken divergences => ∀ divergence, divergences.count divergence = (standing past divergence).waiting
  | cleared _ => True

/-- All the news are as they have to be. -/
def FitAfter : List News → List News → Prop
  | _, [] => True
  | past, news :: rest => news.Fits past ∧ FitAfter (past ++ [news]) rest

variable {past news rest : List News} {divergence : Divergence}

theorem fitAfter_append :
    FitAfter past (news ++ rest) ↔ FitAfter past news ∧ FitAfter (past ++ news) rest := by
  induction news generalizing past with
  | nil => simp [FitAfter]
  | cons piece news ih => simp [FitAfter, ih, and_assoc]

theorem standing_concat (past : List News) (piece : News) (divergence : Divergence) :
    standing (past ++ [piece]) divergence = piece.stand divergence (standing past divergence) := by
  simp [standing]

end News

/-! ## The news of a peer -/

/-- What listeners have been told between two states of a peer, in order. -/
def Alarms.toldSince (before after : Alarms) : List (Listener × Divergence) :=
  (after.heard.take (after.heard.length - before.heard.length)).reverse

theorem Alarms.toldSince_eq {before after : Alarms} {told : List (Listener × Divergence)}
    (grown : after.heard = told.reverse ++ before.heard) : before.toldSince after = told := by
  rw [toldSince, grown, List.length_append, Nat.add_sub_cancel, List.take_left, List.reverse_reverse]

/-- The news when a divergence may have come up. -/
def News.ofReport? (before after : Alarms) (divergence? : Option Divergence) : List News :=
  divergence?.toList.map fun divergence => .reported divergence (before.toldSince after)

namespace Peer

variable {W : Type}

/-- The divergence that comes up with a message: the one of a notice, or what the arbiter says of an
opinion. -/
def hears? (peer : Peer W) : Inbound → Option Divergence
  | .opinion author bytes =>
    match DriftOpinion.decode bytes with
    | .ok opinion => (peer.arbiter.submit author opinion).1
    | .error _ => none
  | .diverged divergence => some divergence
  | _ => none

/-- The news that messages bring, one after another. -/
def newsOfMessages : Peer W → List Inbound → List News
  | _, [] => []
  | peer, message :: messages =>
    News.ofReport? peer.alarms (peer.receive message).alarms (peer.hears? message) ++
      newsOfMessages (peer.receive message) messages

def newsOfPump (peer : Peer W) : List News := newsOfMessages peer.emptied peer.inbox.messages

variable [World W]

/-- The news of a tick: what the arbiter says of the peer's own opinion. -/
def newsOfTick (peer : Peer W) (scope : ScopeId) (state : ScopeState) : List News :=
  News.ofReport? peer.alarms (peer.runTick scope state).2.alarms
    ((peer.opinionAfter? scope state).bind fun opinion => (peer.arbiter.submit peer.id opinion).1)

def newsOfAdvance (peer : Peer W) (scope : ScopeId) : List News :=
  peer.newsOfPump ++
    match peer.pump.2.scopes.get? scope with
    | none => []
    | some state =>
      if peer.pump.2.tickLimit.any (· < state.next) then [] else peer.pump.2.newsOfTick scope state

def newsOfEach : Peer W → List ScopeId → List News
  | _, [] => []
  | peer, scope :: scopes => peer.newsOfAdvance scope ++ newsOfEach (peer.advance scope).2 scopes

def newsOfAll (peer : Peer W) : List News :=
  peer.newsOfPump ++ peer.pump.2.newsOfEach peer.pump.2.scopes.keys

/-- The news of a scope that is advanced for at most so many ticks. -/
def newsWithin (scope : ScopeId) (tick : Tick) : Nat → Peer W → List News
  | steps, peer =>
    match peer.nextTick? scope with
    | none => []
    | some next =>
      if tick < next then []
      else match steps with
        | 0 => peer.newsOfPump
        | steps + 1 => peer.newsOfAdvance scope ++
          match peer.advance scope with
          | (.ok (some _), after) => newsWithin scope tick steps after
          | _ => []

def newsUntil (peer : Peer W) (scope : ScopeId) (tick : Tick) : List News :=
  newsWithin scope tick (tick.toNat + 1 - ((peer.nextTick? scope).getD 0).toNat) peer

end Peer

/-- The news of a move. -/
def PeerMove.news {W : Type} [World W] (peer : Peer W) : PeerMove W → List News
  | .quiet _ => []
  | .pump => peer.newsOfPump
  | .advance scope => peer.newsOfAdvance scope
  | .advanceAll => peer.newsOfAll
  | .runUntil scope tick => peer.newsUntil scope tick
  | .takeDivergences => [.taken peer.takeDivergences.1]
  | .listen listener => [.listens listener]
  | .clearDrift scope => [.cleared scope]
  | .removeScope scope =>
    match ((Peer.Action.removeScope scope).run peer).1 with
    | .ok () => [.cleared scope]
    | .error _ => []

/-- A peer and its news. -/
structure Reporting (W : Type) where
  peer : Peer W
  news : List News := []

namespace Reporting

variable {W : Type} [World W]

/-- Go on with a move, unless it never returns. -/
def step (reporting : Reporting W) (move : PeerMove W) : Option (Reporting W) := do
  let peer ← move.run reporting.peer
  return { peer, news := reporting.news ++ move.news reporting.peer }

/-- Go on with moves, one after another. -/
def play (reporting : Reporting W) (moves : List (PeerMove W)) : Option (Reporting W) :=
  moves.foldlM step reporting

/-- Keeping the news changes nothing of what the peer does. -/
theorem peer_play (reporting : Reporting W) (moves : List (PeerMove W)) :
    (reporting.play moves).map (·.peer) = reporting.peer.play moves := by
  induction moves generalizing reporting with
  | nil => rfl
  | cons move moves ih =>
    rw [play, Peer.play, List.foldlM_cons, List.foldlM_cons, step]
    cases move.run reporting.peer with
    | none => rfl
    | some peer => exact ih _

end Reporting

/-! ## What a peer remembers -/

/-- What is remembered of a divergence is where it stands. -/
structure Alarms.Remembers (alarms : Alarms) (divergence : Divergence) (standing : Standing) : Prop where
  reported : divergence ∈ alarms.reported ↔ standing ≠ .unheard
  pending : alarms.divergences.count divergence = standing.waiting

/-- What is remembered of divergences keeps up with the news. -/
structure KeepsUp (news : List News) (alarms : Alarms) : Prop where
  fits : News.FitAfter [] news
  listeners : alarms.listeners = News.listeners news
  heard : alarms.heard.reverse = news.flatMap News.told
  remembers (divergence : Divergence) : alarms.Remembers divergence (News.standing news divergence)

namespace KeepsUp

variable {W : Type} {news : List News} {alarms after : Alarms} {peer : Peer W} {piece : News}

theorem new (arbiter : DriftArbiter) : KeepsUp [] ⟨arbiter, [], [], [], []⟩ where
  fits := trivial
  listeners := rfl
  heard := rfl
  remembers _ := ⟨by simp [News.standing], rfl⟩

/-- The arbiter has a memory of its own. -/
theorem weigh (keeps : KeepsUp news alarms) (arbiter : DriftArbiter) :
    KeepsUp news { alarms with arbiter } where
  fits := keeps.fits
  listeners := keeps.listeners
  heard := keeps.heard
  remembers divergence := ⟨(keeps.remembers divergence).reported, (keeps.remembers divergence).pending⟩

theorem nothing (keeps : KeepsUp news alarms) : KeepsUp (news ++ []) alarms := by
  rw [List.append_nil]
  exact keeps

theorem unnoticed (keeps : KeepsUp news alarms) (before after : Alarms) :
    KeepsUp (news ++ News.ofReport? before after none) alarms := keeps.nothing

/-- One more piece of news. -/
theorem concat (keeps : KeepsUp news alarms) (fits : piece.Fits news)
    (listeners : after.listeners = alarms.listeners ++ piece.listener?.toList)
    (heard : after.heard = piece.told.reverse ++ alarms.heard)
    (remembers : ∀ divergence, alarms.Remembers divergence (News.standing news divergence) →
      after.Remembers divergence (piece.stand divergence (News.standing news divergence))) :
    KeepsUp (news ++ [piece]) after where
  fits := News.fitAfter_append.mpr ⟨keeps.fits, fits, trivial⟩
  listeners := by
    rw [listeners, keeps.listeners, News.listeners, News.listeners, List.filterMap_append]
    cases named : piece.listener? <;> simp [named]
  heard := by
    rw [heard, List.reverse_append, keeps.heard, List.reverse_reverse, List.flatMap_append,
      List.flatMap_singleton]
  remembers divergence := by
    rw [News.standing_concat]
    exact remembers divergence (keeps.remembers divergence)

theorem listen (keeps : KeepsUp news peer.alarms) (listener : Listener) :
    KeepsUp (news ++ [.listens listener]) (peer.addListener listener).alarms :=
  keeps.concat trivial rfl rfl fun _ same => ⟨same.reported, same.pending⟩

theorem take (keeps : KeepsUp news peer.alarms) :
    KeepsUp (news ++ [.taken peer.takeDivergences.1]) peer.takeDivergences.2.alarms := by
  refine keeps.concat (fun divergence => (keeps.remembers divergence).pending)
    (List.append_nil _).symm rfl fun divergence same => ?_
  generalize News.standing news divergence = standing at same ⊢
  obtain ⟨reported, -⟩ := same
  cases standing with
  | unheard => exact ⟨reported, rfl⟩
  | pending => exact ⟨reported.trans (iff_of_true nofun nofun), rfl⟩
  | taken => exact ⟨reported, rfl⟩

/-- Only the divergences of the scope are forgotten. -/
theorem clear (keeps : KeepsUp news peer.alarms) (scope : ScopeId) :
    KeepsUp (news ++ [.cleared scope]) (peer.clearDrift scope).alarms := by
  refine keeps.concat trivial (List.append_nil _).symm rfl fun divergence ⟨reported, pending⟩ => ?_
  have left : (peer.clearDrift scope).alarms.reported = peer.reported.filter (·.scope != scope) := rfl
  have waits : (peer.clearDrift scope).alarms.divergences =
    peer.divergences.filter (·.scope != scope) := rfl
  rw [News.stand]
  split
  next here =>
    refine ⟨?_, ?_⟩
    · rw [left, List.mem_filter]
      simp [here]
    · rw [waits]
      exact List.count_eq_zero.mpr (by simp [here])
  next other =>
    have stays : (divergence.scope != scope) = true := by simpa using Ne.symm other
    refine ⟨?_, ?_⟩
    · rw [left, List.mem_filter, and_iff_left stays]
      exact reported
    · rw [waits]
      exact (List.count_filter (p := fun other : Divergence => other.scope != scope) stays).trans pending

/-- A divergence that comes up is news if it has not been heard of since its scope was cleared. -/
theorem report (keeps : KeepsUp news peer.alarms) (divergence : Divergence) :
    KeepsUp (news ++ News.ofReport? peer.alarms (peer.report divergence).alarms (some divergence))
      (peer.report divergence).alarms := by
  have known : peer.reported.contains divergence = true ↔
      News.standing news divergence ≠ .unheard :=
    List.contains_iff_mem.trans (keeps.remembers divergence).reported
  rw [News.ofReport?, Option.toList_some, List.map_singleton, Peer.report]
  split
  next heard =>
    have silent : peer.alarms.toldSince peer.alarms = [] := Alarms.toldSince_eq rfl
    rw [silent]
    refine keeps.concat ?_ (List.append_nil _).symm rfl fun other same => ?_
    · rw [News.Fits, if_neg (known.mp heard)]
    · rw [News.stand, if_neg]
      · exact same
      · rintro ⟨rfl, unheard⟩
        exact known.mp heard unheard
  next fresh =>
    have unheard : News.standing news divergence = .unheard := Decidable.not_not.mp (mt known.mpr fresh)
    have told : peer.listeners.reverse.map (·, divergence) ++ peer.heard =
        (peer.listeners.map (·, divergence)).reverse ++ peer.heard := by rw [List.map_reverse]
    rw [Alarms.toldSince_eq told]
    refine keeps.concat ?_ (List.append_nil _).symm told fun other same => ?_
    · rw [News.Fits, if_pos unheard, ← keeps.listeners]
      rfl
    · obtain ⟨reported, pending⟩ := same
      rw [News.stand]
      by_cases here : divergence = other
      · subst here
        rw [if_pos ⟨rfl, unheard⟩]
        rw [unheard] at pending
        refine ⟨iff_of_true List.mem_cons_self nofun, ?_⟩
        exact List.count_append.trans (congrArg₂ _ pending List.count_singleton_self)
      · rw [if_neg (here ·.1)]
        refine ⟨(List.mem_cons.trans (or_iff_right (Ne.symm here))).trans reported, ?_⟩
        have absent : [divergence].count other = 0 :=
          List.count_singleton.trans (if_neg (mt beq_iff_eq.mp here))
        exact List.count_append.trans (congrArg₂ _ pending absent)

/-- An opinion that is weighed may bring up a divergence. -/
theorem submit (keeps : KeepsUp news peer.alarms) (author : PeerId) (opinion : DriftOpinion) :
    KeepsUp (news ++ News.ofReport? peer.alarms (peer.submit author opinion).alarms
      (peer.arbiter.submit author opinion).1) (peer.submit author opinion).alarms := by
  have weighed : KeepsUp news
      ({ peer with arbiter := (peer.arbiter.submit author opinion).2 } : Peer W).alarms :=
    keeps.weigh _
  rw [Peer.submit]
  dsimp only
  cases (peer.arbiter.submit author opinion).1 with
  | none => exact weighed.unnoticed _ _
  | some divergence => exact weighed.report divergence

theorem receive (keeps : KeepsUp news peer.alarms) (message : Inbound) :
    KeepsUp (news ++ News.ofReport? peer.alarms (peer.receive message).alarms (peer.hears? message))
      (peer.receive message).alarms := by
  cases message with
  | command arrived => exact keeps.unnoticed _ _
  | tickLimit limit => exact keeps.unnoticed _ _
  | opinion author bytes =>
    rw [Peer.hears?, Peer.receive]
    cases DriftOpinion.decode bytes with
    | ok opinion => exact keeps.submit author opinion
    | error error => exact keeps.unnoticed _ _
  | diverged divergence => exact keeps.report divergence

theorem messages (keeps : KeepsUp news peer.alarms) (messages : List Inbound) :
    KeepsUp (news ++ peer.newsOfMessages messages) (messages.foldl Peer.receive peer).alarms := by
  induction messages generalizing news peer with
  | nil => exact keeps.nothing
  | cons message messages ih =>
    rw [Peer.newsOfMessages, ← List.append_assoc]
    exact ih (keeps.receive message)

theorem pump (keeps : KeepsUp news peer.alarms) :
    KeepsUp (news ++ peer.newsOfPump) peer.pump.2.alarms := by
  have emptied : KeepsUp news peer.emptied.alarms := keeps
  exact emptied.messages peer.inbox.messages

variable [World W]

omit [World W] in
theorem publish (keeps : KeepsUp news peer.alarms) (opinion : DriftOpinion) :
    KeepsUp (news ++ News.ofReport? peer.alarms (peer.publish opinion).alarms
      (peer.arbiter.submit peer.id opinion).1) (peer.publish opinion).alarms := by
  rw [Peer.publish]
  cases opinion.encode with
  | ok bytes =>
    have sent : KeepsUp news (peer.send (.opinion bytes)).alarms := keeps
    exact sent.submit peer.id opinion
  | error error => exact keeps.submit peer.id opinion

/-- A tick publishes an opinion at most, of which the arbiter may say that it has parted. -/
theorem tick (keeps : KeepsUp news peer.alarms) (scope : ScopeId) (state : ScopeState) :
    KeepsUp (news ++ peer.newsOfTick scope state) (peer.runTick scope state).2.alarms := by
  rw [Peer.newsOfTick, Peer.runTick]
  dsimp only
  split
  next opinion due =>
    have due : peer.opinionAfter? scope state = some opinion := due
    have simulated : KeepsUp news ({ peer with
      world := (peer.simulate scope state).world
      scopes := peer.scopes.insert scope (peer.stateAfter scope state) } : Peer W).alarms := keeps
    rw [due]
    exact simulated.publish opinion
  next due =>
    have due : peer.opinionAfter? scope state = none := due
    rw [due]
    exact keeps.unnoticed _ _

theorem advance (keeps : KeepsUp news peer.alarms) (scope : ScopeId) :
    KeepsUp (news ++ peer.newsOfAdvance scope) (peer.advance scope).2.alarms := by
  rw [Peer.newsOfAdvance, ← List.append_assoc, Peer.advance]
  dsimp only
  cases peer.pump.2.scopes.get? scope with
  | none => exact keeps.pump.nothing
  | some state =>
    dsimp only
    split
    next => exact keeps.pump.nothing
    next => exact keeps.pump.tick scope state

theorem each (keeps : KeepsUp news peer.alarms) (scopes : List ScopeId) :
    KeepsUp (news ++ peer.newsOfEach scopes) (peer.advanceEach scopes).2.alarms := by
  induction scopes generalizing news peer with
  | nil => exact keeps.nothing
  | cons scope scopes ih =>
    have step := ih (keeps.advance scope)
    rw [Peer.newsOfEach, ← List.append_assoc, Peer.advanceEach]
    rcases advanced : peer.advance scope with ⟨error | _ | report, after⟩ <;>
      simpa only [advanced] using step

theorem all (keeps : KeepsUp news peer.alarms) :
    KeepsUp (news ++ peer.newsOfAll) peer.advanceAll.2.alarms := by
  rw [Peer.newsOfAll, ← List.append_assoc]
  exact keeps.pump.each _

theorem within (keeps : KeepsUp news peer.alarms) {scope : ScopeId} {tick : Tick} {steps : Nat}
    {reports : List TickReport} {result : Except PeerError (List TickReport)} {last : Peer W}
    (ran : Peer.runWithin scope tick steps peer reports = some (result, last)) :
    KeepsUp (news ++ Peer.newsWithin scope tick steps peer) last.alarms := by
  induction steps generalizing news peer reports with
  | zero =>
    rw [Peer.runWithin] at ran
    rw [Peer.newsWithin]
    cases known : peer.nextTick? scope with
    | none =>
      simp only [known, Option.some.injEq, Prod.mk.injEq] at ran
      exact ran.2 ▸ keeps.nothing
    | some next =>
      simp only [known] at ran ⊢
      split_ifs at ran with later held
      · cases ran
        rw [if_pos later]
        exact keeps.nothing
      · cases ran
        rw [if_neg later]
        exact keeps.pump
  | succ steps ih =>
    rw [Peer.runWithin] at ran
    rw [Peer.newsWithin]
    cases known : peer.nextTick? scope with
    | none =>
      simp only [known, Option.some.injEq, Prod.mk.injEq] at ran
      exact ran.2 ▸ keeps.nothing
    | some next =>
      simp only [known] at ran ⊢
      split_ifs at ran with later
      · cases ran
        rw [if_pos later]
        exact keeps.nothing
      · rw [if_neg later, ← List.append_assoc]
        have step := keeps.advance scope
        rcases advanced : peer.advance scope with ⟨error | _ | report, after⟩ <;>
          simp only [advanced] at ran step ⊢
        · cases ran
          exact step.nothing
        · cases ran
          exact step.nothing
        · exact ih step ran

theorem move (keeps : KeepsUp news peer.alarms) {move : PeerMove W} {last : Peer W}
    (moved : move.run peer = some last) : KeepsUp (news ++ move.news peer) last.alarms := by
  cases move with
  | quiet errand =>
    cases moved
    rw [Peer.alarms_errand]
    exact keeps.nothing
  | pump =>
    cases moved
    exact keeps.pump
  | advance scope =>
    cases moved
    exact keeps.advance scope
  | advanceAll =>
    cases moved
    exact keeps.all
  | runUntil scope tick =>
    obtain ⟨⟨result, after⟩, ran, rfl⟩ := Option.map_eq_some_iff.mp moved
    exact keeps.within ran
  | takeDivergences =>
    cases moved
    exact keeps.take
  | listen listener =>
    cases moved
    exact keeps.listen listener
  | clearDrift scope =>
    cases moved
    exact keeps.clear scope
  | removeScope scope =>
    cases moved
    cases known : peer.scopes.contains scope with
    | true =>
      rw [PeerMove.news, Peer.Action.run_removeScope_of_known known]
      exact keeps.clear scope
    | false =>
      rw [PeerMove.news, Peer.Action.run_removeScope_of_unknown known]
      exact keeps.nothing

end KeepsUp

/-! ## Between two clearings -/

namespace News

variable {past stretch : List News} {piece : News} {divergence : Divergence} {listener : Listener}

theorem listener_told (fits : piece.Fits past) (told : (listener, divergence) ∈ piece.told) :
    standing past divergence = .unheard ∧ ∃ told, piece = .reported divergence told := by
  cases piece with
  | listens _ => cases told
  | taken _ => cases told
  | cleared _ => cases told
  | reported other list =>
    rw [Fits] at fits
    split at fits
    next unheard =>
      subst fits
      obtain ⟨_, -, same⟩ := List.mem_map.mp told
      cases same
      exact ⟨unheard, _, rfl⟩
    next =>
      subst fits
      cases told

/-- A divergence that is known stays known until its scope is cleared. -/
theorem stand_ne_unheard {standing : Standing} (known : standing ≠ .unheard)
    (kept : piece ≠ .cleared divergence.scope) : piece.stand divergence standing ≠ .unheard := by
  cases piece with
  | listens _ => exact known
  | reported other told => rwa [stand, if_neg (known ·.2)]
  | taken _ =>
    rw [stand]
    split
    next => nofun
    next => exact known
  | cleared scope => rwa [stand, if_neg fun here => kept (congrArg _ here)]

/-- What is pending is taken, or stays pending. -/
theorem count_takes_add_waiting (fits : piece.Fits past) (known : standing past divergence ≠ .unheard)
    (kept : piece ≠ .cleared divergence.scope) :
    piece.takes.count divergence + (standing (past ++ [piece]) divergence).waiting =
      (standing past divergence).waiting := by
  rw [standing_concat]
  cases piece with
  | listens _ => exact Nat.zero_add _
  | reported other told =>
    rw [stand, if_neg (known ·.2)]
    exact Nat.zero_add _
  | taken divergences =>
    have count : divergences.count divergence = _ := fits divergence
    rw [takes, count]
    generalize standing past divergence = standing at known ⊢
    cases standing with
    | unheard => exact absurd rfl known
    | pending => rfl
    | taken => rfl
  | cleared scope =>
    rw [stand, if_neg fun here => kept (congrArg _ here)]
    exact Nat.zero_add _

/-- Until its scope is cleared, a divergence that is known stays known, nobody is told of it, and it is
handed out if it is pending. -/
theorem known_stretch (fit : FitAfter past stretch) (known : standing past divergence ≠ .unheard)
    (kept : .cleared divergence.scope ∉ stretch) :
    standing (past ++ stretch) divergence ≠ .unheard ∧
      (∀ listener, (listener, divergence) ∉ stretch.flatMap told) ∧
      (stretch.flatMap takes).count divergence + (standing (past ++ stretch) divergence).waiting =
        (standing past divergence).waiting := by
  induction stretch generalizing past with
  | nil =>
    rw [List.append_nil]
    exact ⟨known, fun _ => List.not_mem_nil, Nat.zero_add _⟩
  | cons piece stretch ih =>
    obtain ⟨fits, fit⟩ := fit
    obtain ⟨here, later⟩ := not_or.mp (mt List.mem_cons.mpr kept)
    have step := count_takes_add_waiting fits known (Ne.symm here)
    have stays : standing (past ++ [piece]) divergence ≠ .unheard := by
      rw [standing_concat]
      exact stand_ne_unheard known (Ne.symm here)
    obtain ⟨last, silent, rest⟩ := ih fit stays later
    rw [List.append_assoc] at last rest
    refine ⟨last, fun listener => ?_, ?_⟩
    · rw [List.flatMap_cons, List.mem_append]
      rintro (told | told)
      · exact known (listener_told fits told).1
      · exact silent listener told
    · rw [List.flatMap_cons, List.count_append]
      have joined : past ++ piece :: stretch = past ++ ([piece] ++ stretch) := rfl
      rw [joined]
      omega

/-- Of a divergence that does not come up, nobody is told, and it is not handed out. -/
theorem silent_stretch (fit : FitAfter past stretch) (unheard : standing past divergence = .unheard)
    (silent : ∀ told, .reported divergence told ∉ stretch) :
    (∀ listener, (listener, divergence) ∉ stretch.flatMap told) ∧
      (stretch.flatMap takes).count divergence = 0 ∧ standing (past ++ stretch) divergence = .unheard := by
  induction stretch generalizing past with
  | nil => exact ⟨fun _ => List.not_mem_nil, rfl, by rwa [List.append_nil]⟩
  | cons piece stretch ih =>
    obtain ⟨fits, fit⟩ := fit
    have stays : standing (past ++ [piece]) divergence = .unheard ∧ piece.takes.count divergence = 0 := by
      rw [standing_concat, unheard]
      cases piece with
      | listens _ => exact ⟨rfl, rfl⟩
      | reported other told =>
        refine ⟨if_neg fun ⟨same, _⟩ => ?_, rfl⟩
        exact silent told (same ▸ List.mem_cons_self)
      | taken divergences =>
        have count : divergences.count divergence = _ := fits divergence
        rw [unheard] at count
        exact ⟨rfl, count⟩
      | cleared scope => exact ⟨ite_self _, rfl⟩
    obtain ⟨untold, untaken, last⟩ :=
      ih fit stays.1 fun told => (not_or.mp (mt List.mem_cons.mpr (silent told))).2
    refine ⟨fun listener => ?_, ?_, ?_⟩
    · rw [List.flatMap_cons, List.mem_append]
      rintro (told | told)
      · obtain ⟨_, list, rfl⟩ := listener_told fits told
        exact silent list List.mem_cons_self
      · exact untold listener told
    · rw [List.flatMap_cons, List.count_append, stays.2, untaken]
    · rwa [List.append_assoc] at last

/-- Once something has been taken, nothing that was known before is pending any more. -/
theorem waiting_of_taking {early late : List News} {divergences : List Divergence}
    (fit : FitAfter past (early ++ .taken divergences :: late))
    (known : standing past divergence ≠ .unheard)
    (kept : .cleared divergence.scope ∉ early ++ .taken divergences :: late) :
    (standing (past ++ (early ++ .taken divergences :: late)) divergence).waiting = 0 := by
  obtain ⟨before, fit⟩ := fitAfter_append.mp fit
  obtain ⟨-, fit⟩ := fit
  have keptEarly : .cleared divergence.scope ∉ early := fun member => kept (List.mem_append_left _ member)
  have keptLate : .cleared divergence.scope ∉ late := fun member =>
    kept (List.mem_append_right _ (List.mem_cons_of_mem _ member))
  have stays := (known_stretch before known keptEarly).1
  have spent : standing (past ++ early ++ [.taken divergences]) divergence = .taken := by
    rw [standing_concat, stand]
    generalize standing (past ++ early) divergence = standing at stays ⊢
    cases standing with
    | unheard => exact absurd rfl stays
    | pending => rfl
    | taken => rfl
  have rest := (known_stretch fit (spent ▸ nofun) keptLate).2.2
  rw [spent, List.append_assoc, List.append_assoc] at rest
  exact (Nat.add_eq_zero_iff.mp rest).2

/-- A stretch of news begins with a scope as new: nothing is past, or the scope has just been cleared. -/
def Begins (scope : ScopeId) (past : List News) : Prop :=
  past = [] ∨ ∃ earlier, past = earlier ++ [.cleared scope]

/-- What becomes of the divergences of a scope in a stretch of news. -/
structure OnceIn (scope : ScopeId) (past stretch : List News) : Prop where
  /-- When a divergence comes up first, everyone who listens is told of it, and nobody is told of it at any
  other time. It is handed out once if anything is taken afterwards. -/
  first {divergence : Divergence} {told : List (Listener × Divergence)} {early late : List News} :
    divergence.scope = scope → stretch = early ++ .reported divergence told :: late →
    (∀ other, .reported divergence other ∉ early) →
      told = (listeners (past ++ early)).map (·, divergence) ∧
      (∀ listener, (listener, divergence) ∉ (early ++ late).flatMap News.told) ∧
      (early.flatMap takes).count divergence = 0 ∧
      (late.flatMap takes).count divergence = if late.any isTaking then 1 else 0
  /-- Of one that does not come up nobody is told, and it is not handed out. -/
  silent {divergence : Divergence} : divergence.scope = scope →
    (∀ told, .reported divergence told ∉ stretch) →
      (∀ listener, (listener, divergence) ∉ stretch.flatMap News.told) ∧
      (stretch.flatMap takes).count divergence = 0

theorem Begins.unheard (begins : Begins divergence.scope past) : standing past divergence = .unheard := by
  rcases begins with rfl | ⟨earlier, rfl⟩
  · rfl
  · rw [standing_concat, stand, if_pos rfl]

/-- A divergence that comes up for the first time since its scope was cleared is pending. -/
theorem first_report {early late : List News} {told : List (Listener × Divergence)}
    (fit : FitAfter past (early ++ .reported divergence told :: late))
    (unheard : standing past divergence = .unheard) (fresh : ∀ other, .reported divergence other ∉ early) :
    told = (listeners (past ++ early)).map (·, divergence) ∧
      FitAfter (past ++ early ++ [.reported divergence told]) late ∧
      standing (past ++ early ++ [.reported divergence told]) divergence = .pending := by
  obtain ⟨before, fits, after⟩ := fitAfter_append.mp fit
  have still := (silent_stretch before unheard fresh).2.2
  refine ⟨?_, after, ?_⟩
  · rwa [Fits, if_pos still] at fits
  · rw [standing_concat, still]
    exact if_pos ⟨rfl, rfl⟩

theorem flatMap_takes_eq_nil {news : List News} (none : news.any isTaking = false) :
    news.flatMap takes = [] := by
  refine List.flatMap_eq_nil_iff.mpr fun piece member => ?_
  have other := List.any_eq_false.mp none piece member
  cases piece with
  | taken divergences => exact absurd rfl other
  | _ => rfl

theorem onceIn {scope : ScopeId} (fit : FitAfter past stretch) (begins : Begins scope past)
    (kept : .cleared scope ∉ stretch) : OnceIn scope past stretch where
  first {divergence told early late} here split fresh := by
    subst here split
    have unheard := begins.unheard
    obtain ⟨told, after, pending⟩ := first_report fit unheard fresh
    obtain ⟨untold, untaken, -⟩ := silent_stretch (fitAfter_append.mp fit).1 unheard fresh
    have keptLate : .cleared divergence.scope ∉ late := fun member =>
      kept (List.mem_append_right _ (List.mem_cons_of_mem _ member))
    obtain ⟨-, untoldLate, count⟩ := known_stretch after (pending ▸ nofun) keptLate
    refine ⟨told, fun listener => ?_, untaken, ?_⟩
    · rw [List.flatMap_append, List.mem_append]
      exact not_or.mpr ⟨untold listener, untoldLate listener⟩
    · cases taking : late.any isTaking with
      | false => rw [flatMap_takes_eq_nil taking]; rfl
      | true =>
        obtain ⟨piece, member, taken⟩ := List.any_eq_true.mp taking
        obtain ⟨front, back, rfl⟩ := List.append_of_mem member
        cases piece with
        | taken divergences =>
          have spent := waiting_of_taking after (pending ▸ nofun) keptLate
          rw [spent, pending] at count
          exact count
        | listens _ => cases taken
        | reported _ _ => cases taken
        | cleared _ => cases taken
  silent {divergence} here silent := by
    subst here
    obtain ⟨untold, untaken, -⟩ := silent_stretch fit begins.unheard silent
    exact ⟨untold, untaken⟩

/-- A divergence that has come up since its scope was cleared has been handed out or is pending. -/
theorem count_takes_of_begins (fit : FitAfter past stretch) (begins : Begins divergence.scope past)
    (kept : .cleared divergence.scope ∉ stretch) :
    (stretch.flatMap takes).count divergence + (standing (past ++ stretch) divergence).waiting =
      if stretch.any (isReportOf divergence) then 1 else 0 := by
  cases found : stretch.find? (isReportOf divergence) with
  | none =>
    have none := List.find?_eq_none.mp found
    have silent (told : List (Listener × Divergence)) : .reported divergence told ∉ stretch :=
      fun member => none _ member (beq_self_eq_true divergence)
    obtain ⟨-, untaken, unheard⟩ := silent_stretch fit begins.unheard silent
    rw [untaken, unheard, if_neg]
    · rfl
    · intro any
      obtain ⟨piece, member, report⟩ := List.any_eq_true.mp any
      exact none piece member report
  | some piece =>
    obtain ⟨report, early, late, rfl, apart⟩ := List.find?_eq_some_iff_append.mp found
    cases piece with
    | listens _ => cases report
    | taken _ => cases report
    | cleared _ => cases report
    | reported other told =>
      obtain rfl : other = divergence := beq_iff_eq.mp report
      have fresh (told : List (Listener × Divergence)) : .reported other told ∉ early := by
        intro member
        have apart := apart _ member
        rw [isReportOf, beq_self_eq_true] at apart
        cases apart
      have comesUp : (early ++ .reported other told :: late).any (isReportOf other) = true :=
        List.any_eq_true.mpr ⟨_, List.mem_append_right _ List.mem_cons_self, report⟩
      obtain ⟨-, after, pending⟩ := first_report fit begins.unheard fresh
      obtain ⟨-, untaken, -⟩ := silent_stretch (fitAfter_append.mp fit).1 begins.unheard fresh
      have keptLate : .cleared other.scope ∉ late := fun member =>
        kept (List.mem_append_right _ (List.mem_cons_of_mem _ member))
      obtain ⟨-, -, count⟩ := known_stretch after (pending ▸ nofun) keptLate
      rw [pending, List.append_assoc, List.append_assoc, List.singleton_append] at count
      rw [if_pos comesUp, List.flatMap_append, List.count_append, untaken, Nat.zero_add]
      exact count

end News

/-- Divergences are news once. -/
structure Reporting.NewsOnce {W : Type} (reporting : Reporting W) : Prop where
  /-- The news tell all that listeners have heard. -/
  heard : reporting.peer.heard.reverse = reporting.news.flatMap News.told
  /-- However the news are cut, between two clearings of a scope its divergences are news once. -/
  once {scope : ScopeId} {past stretch rest : List News} :
    reporting.news = past ++ stretch ++ rest → News.Begins scope past → .cleared scope ∉ stretch →
      News.OnceIn scope past stretch
  /-- What has come up since its scope was cleared last has been handed out or is still pending. -/
  pending {divergence : Divergence} {past stretch : List News} :
    reporting.news = past ++ stretch → News.Begins divergence.scope past →
    .cleared divergence.scope ∉ stretch →
      (stretch.flatMap News.takes).count divergence + reporting.peer.divergences.count divergence =
        if stretch.any (News.isReportOf divergence) then 1 else 0

namespace Reporting

variable {W : Type} [World W]

theorem keepsUp_play {reporting last : Reporting W} (keeps : KeepsUp reporting.news reporting.peer.alarms)
    {moves : List (PeerMove W)} (played : reporting.play moves = some last) :
    KeepsUp last.news last.peer.alarms := by
  induction moves generalizing reporting with
  | nil =>
    cases played
    exact keeps
  | cons move moves ih =>
    rw [play, List.foldlM_cons] at played
    obtain ⟨next, stepped, played⟩ := Option.bind_eq_some_iff.mp played
    obtain ⟨peer, moved, same⟩ := Option.bind_eq_some_iff.mp stepped
    cases same
    exact ih (keeps.move moved) played

/-- Whatever happens to a peer from its creation on, divergences are news once. -/
theorem news_once {config : SyncConfig} {table : HandlerTable W} {world : W} {start : Peer W}
    (created : Peer.create config table world = .ok start) {moves : List (PeerMove W)}
    {last : Reporting W} (played : Reporting.play ⟨start, []⟩ moves = some last) : last.NewsOnce := by
  have first : KeepsUp (Reporting.mk start []).news (Reporting.mk start []).peer.alarms := by
    dsimp only
    rw [Peer.alarms_of_create created]
    exact KeepsUp.new _
  have keeps := keepsUp_play first played
  have fits := keeps.fits
  constructor
  · exact keeps.heard
  · intro scope past stretch rest cut begins kept
    rw [cut, News.fitAfter_append, News.fitAfter_append] at fits
    exact News.onceIn fits.1.2 begins kept
  · intro divergence past stretch cut begins kept
    have remembered := (keeps.remembers divergence).pending
    rw [cut] at remembered
    rw [cut, News.fitAfter_append, List.nil_append] at fits
    have count := News.count_takes_of_begins fits.2 begins kept
    rwa [← remembered] at count

/-- A notice of a divergence in a map. -/
def mapNotice : Divergence := ⟨.map 1, 4, 7⟩

/-- What an arbiter says of the second of two opinions on a global tick. -/
def globalParting : Divergence := ⟨.global, 5, 3⟩

/-- The bytes of an opinion with one sample of a global tick. -/
def globalOpinion (value : UInt64) : Bytes :=
  (DriftOpinion.encode ⟨.global, 5, [⟨5, value⟩]⟩).toOption.getD []

/-- A notice comes again and again, before and after its divergence is taken and its scope cleared, and
two opinions part in between. -/
def echoedMoves : List (PeerMove Lab) := [
  .listen "first", .quiet (.deliver (.diverged mapNotice)), .quiet (.deliver (.diverged mapNotice)), .pump,
  .listen "second", .takeDivergences, .quiet (.deliver (.diverged mapNotice)), .pump,
  .quiet (.deliver (.opinion 2 (globalOpinion 8))), .quiet (.deliver (.opinion 3 (globalOpinion 9))), .pump,
  .clearDrift (.map 1), .quiet (.deliver (.diverged mapNotice)), .pump]

/-- Both listeners hear of the parting, and of the notice they hear again once its scope is cleared. -/
theorem echoed_news_once : ∃ last, Reporting.play ⟨levelPeer, []⟩ echoedMoves = some last ∧
    last.NewsOnce ∧ last.peer.divergences = [globalParting, mapNotice] ∧
    last.news = [
      .listens "first", .reported mapNotice [("first", mapNotice)], .reported mapNotice [],
      .listens "second", .taken [mapNotice], .reported mapNotice [],
      .reported globalParting [("first", globalParting), ("second", globalParting)],
      .cleared (.map 1), .reported mapNotice [("first", mapNotice), ("second", mapNotice)]] := by
  have created : Peer.create {} levelTable {} = .ok levelPeer := by rfl
  have ran : (Reporting.play ⟨levelPeer, []⟩ echoedMoves).isSome := by decide +kernel
  obtain ⟨last, played⟩ := Option.isSome_iff_exists.mp ran
  have shown : (Reporting.play ⟨levelPeer, []⟩ echoedMoves).map
      (fun last => (last.peer.divergences, last.news)) = some ([globalParting, mapNotice], [
        .listens "first", .reported mapNotice [("first", mapNotice)], .reported mapNotice [],
        .listens "second", .taken [mapNotice], .reported mapNotice [],
        .reported globalParting [("first", globalParting), ("second", globalParting)],
        .cleared (.map 1), .reported mapNotice [("first", mapNotice), ("second", mapNotice)]]) := by
    decide +kernel
  rw [played] at shown
  obtain ⟨pending, news⟩ := Prod.mk.inj (Option.some.inj shown)
  exact ⟨last, played, news_once created played, pending, news⟩

end Reporting

end Lockstep
