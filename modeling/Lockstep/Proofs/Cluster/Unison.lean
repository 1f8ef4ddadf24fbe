import Lockstep.Proofs.Authority
import Lockstep.Proofs.Cluster.Following
import Lockstep.Proofs.Peer.Alike
import Lockstep.Proofs.Peer.CatchUp

/-! # Clusters in unison

In a cluster whose peers act in the same rounds, and otherwise only capture commands, all peers are
alike at any time: they are told the same, they have room for the same, and what they have captured
is with the authority. So they catch up alike, and voice the same opinions, in which the authority
finds nothing to report.
-/

namespace Lockstep

/-! ## The authority -/

namespace Authority

/-- Every opinion that has arrived is known. -/
def Hears (known : DriftOpinion → Prop) (waiting : List (PeerId × Outbound)) : Prop :=
  ∀ peer bytes, (peer, .opinion bytes) ∈ waiting → ∃ opinion, known opinion ∧
    DriftOpinion.decode bytes = .ok opinion

/-- An authority that knows of no divergence, whose opinions are all known. -/
structure Content (known : DriftOpinion → Prop) (authority : Authority) : Prop where
  undivided : authority.divergences = []
  keeps : authority.arbiter.Keeps known

variable {known : DriftOpinion → Prop} {authority : Authority}

/-- Nothing that arrives with known opinions makes an authority report a divergence. -/
theorem Content.handle (coherent : Coherent known) (content : authority.Content known)
    {peer : PeerId} {message : Outbound} (hears : Hears known [(peer, message)]) :
    (authority.handle peer message).2.Content known ∧
      ∀ told ∈ (authority.handle peer message).1, ∃ arrived, told = .command arrived := by
  cases message with
  | command scope bytes =>
    refine ⟨content, ?_⟩
    intro told member
    simp only [Authority.handle, Inbound.ofDelivery] at member
    cases read : Command.ofDelivery scope (authority.tick.offset authority.delay) bytes with
    | ok arrived =>
      rw [read] at member
      exact ⟨arrived, (Option.some.inj member).symm⟩
    | error error =>
      rw [read] at member
      cases member
  | opinion bytes =>
    obtain ⟨opinion, knows, decoded⟩ := hears peer bytes (List.mem_singleton_self _)
    obtain ⟨nobody, keeps⟩ := content.keeps.submit coherent knows peer
    simp only [Authority.handle, decoded, nobody]
    refine ⟨⟨?_, keeps⟩, fun told member => ?_⟩
    · rw [content.undivided]
      rfl
    · cases member

theorem Content.handleAll (coherent : Coherent known) (content : authority.Content known)
    {messages : List (PeerId × Outbound)} (hears : Hears known messages) :
    (handleAll messages authority).2.Content known ∧
      ∀ told ∈ (handleAll messages authority).1, ∃ arrived, told = .command arrived := by
  induction messages generalizing authority with
  | nil =>
    refine ⟨content, ?_⟩
    intro told member
    cases member
  | cons message messages ih =>
    obtain ⟨peer, message⟩ := message
    have first : Hears known [(peer, message)] := fun other bytes member =>
      hears other bytes (List.mem_singleton.mp member ▸ List.mem_cons_self)
    have rest : Hears known messages :=
      fun other bytes member => hears other bytes (List.mem_cons_of_mem _ member)
    obtain ⟨middle, told⟩ := content.handle coherent first
    obtain ⟨last, others⟩ := ih middle rest
    refine ⟨last, ?_⟩
    intro other member
    rcases List.mem_append.mp member with member | member
    · exact told other (Option.mem_toList.mp member)
    · exact others other member

theorem waiting_handleAll (messages : List (PeerId × Outbound)) (authority : Authority) :
    (Authority.handleAll messages authority).2.waiting = authority.waiting := by
  induction messages generalizing authority with
  | nil => rfl
  | cons message messages ih => exact (ih _).trans (waiting_handle _ _ _)

/-- A step tells commands, and then the next tick. -/
theorem Content.step (coherent : Coherent known) (content : authority.Content known)
    (hears : Hears known authority.waiting) :
    authority.step.2.Content known ∧ authority.step.2.waiting = [] ∧
      authority.step.2.tick = authority.tick.next ∧
      ∀ limit, .tickLimit limit ∈ authority.step.1 → limit = authority.tick.next := by
  have arrived : Hears known authority.waiting.reverse := fun peer bytes member =>
    hears peer bytes (List.mem_reverse.mp member)
  have emptied : ({ authority with waiting := [] } : Authority).Content known :=
    ⟨content.undivided, content.keeps⟩
  obtain ⟨after, told⟩ := emptied.handleAll coherent arrived
  have tick : authority.pump.2.tick = authority.tick := tick_pump authority
  refine ⟨⟨after.undivided, after.keeps⟩, waiting_handleAll _ _, congrArg Tick.next tick,
    fun limit member => ?_⟩
  rcases List.mem_append.mp member with member | member
  · obtain ⟨_, impossible⟩ := told _ member
    cases impossible
  · have same : Inbound.tickLimit limit = .tickLimit authority.pump.2.tick.next :=
      List.mem_singleton.mp member
    cases same
    rw [tick]

end Authority

/-! ## Capturing -/

namespace Cluster

variable {W : Type} {cluster : Cluster W} {place : Nat} {ambient : Ambient} {capture : Capture}

/-- Capture a command with the peer in a place. Nothing happens where there is none. -/
def attempt (cluster : Cluster W) (place : Nat) (ambient : Ambient) (capture : Capture) :
    Cluster W :=
  match cluster.act place fun peer => ((), peer.attempt ambient capture) with
  | .ok (_, after) => after
  | .error _ => cluster

theorem attempt_of_none (nobody : cluster.members[place]? = none) :
    cluster.attempt place ambient capture = cluster := by
  simp only [attempt, act, member, nobody]
  rfl

theorem attempt_of_some {member : Member W} {number : PeerId}
    (here : cluster.members[place]? = some member) (connected : member.number = some number) :
    cluster.attempt place ambient capture =
      { cluster with
        authority :=
          cluster.authority.collect number (member.peer.attempt ambient capture).outbox.reverse
        members := cluster.members.set place
          { member with peer := (member.peer.attempt ambient capture).drainOutbox.2 } } := by
  simp only [attempt, act, Cluster.member, here, bind, Except.bind, Member.deliver, connected]
  rfl

/-- Capturing makes no ticks and no peers. -/
theorem attempt_keeps (cluster : Cluster W) (place : Nat) (ambient : Ambient) (capture : Capture) :
    (cluster.attempt place ambient capture).authority.tick = cluster.authority.tick ∧
      (cluster.attempt place ambient capture).members.length = cluster.members.length := by
  cases here : cluster.members[place]? with
  | none =>
    rw [attempt_of_none here]
    exact ⟨rfl, rfl⟩
  | some member =>
    simp only [attempt, act, Cluster.member, here, bind, Except.bind, Member.deliver]
    refine ⟨?_, List.length_set⟩
    cases member.number with
    | none => rfl
    | some number => rfl

end Cluster

/-! ## Members in unison -/

variable {W : Type}

/-- A peer that has been handed messages, as far as it has room for them. -/
def Peer.posted (messages : List Inbound) (peer : Peer W) : Peer W :=
  { peer with inbox := peer.inbox.postAll messages }

theorem Peer.Alike.posted {first second : Peer W} (alike : first.Alike second)
    (messages : List Inbound) : (first.posted messages).Alike (second.posted messages) := by
  have core (peer : Peer W) : (peer.posted messages).core =
    { peer.core with inbox := peer.core.inbox.postAll messages } := rfl
  have same : first.core = second.core := alike
  rw [Peer.Alike, core, core, same]

/-- A peer after its messages have been taken away. -/
theorem Peer.Alike.drained {first second : Peer W} (alike : first.Alike second) :
    first.drainOutbox.2.Alike second.drainOutbox.2 := by
  have core (peer : Peer W) : peer.drainOutbox.2.core = { peer.core with outbox := [] } := rfl
  have same : first.core = second.core := alike
  rw [Peer.Alike, core, core, same]

/-- A connected member whose peer is like another. -/
structure Member.Follows (leader : Peer W) (member : Member W) : Prop where
  connected : member.number.isSome
  alike : leader.Alike member.peer

theorem Member.Follows.tell {leader : Peer W} {member : Member W}
    (follows : member.Follows leader) (messages : List Inbound) :
    (member.tell messages).Follows (leader.posted messages) := by
  obtain ⟨number, known⟩ := Option.isSome_iff_exists.mp follows.connected
  have told : member.tell messages = { member with peer := member.peer.posted messages } := by
    rw [Member.tell, known]
    rfl
  rw [told]
  exact ⟨follows.connected, follows.alike.posted messages⟩

/-- A cluster in unison with a peer: its members are like that peer, which has handed over what it
has captured, knows how far it may simulate, and has voiced known opinions; and the authority has
heard nothing else. -/
structure Unison (known : DriftOpinion → Prop) (leader : Peer W) (cluster : Cluster W) : Prop where
  follows : ∀ member ∈ cluster.members, member.Follows leader
  drained : leader.outbox = []
  limited : leader.Limited cluster.authority.tick leader.inbox.messages
  voices : leader.Voices known
  content : cluster.authority.Content known
  hears : Authority.Hears known cluster.authority.waiting

namespace Unison

variable {known : DriftOpinion → Prop} {leader : Peer W} {cluster : Cluster W}

/-- What a peer captures goes to the authority, and leaves the peer like the others. -/
theorem attempt (unison : Unison known leader cluster) (place : Nat) (ambient : Ambient)
    (capture : Capture) : Unison known leader (cluster.attempt place ambient capture) := by
  cases here : cluster.members[place]? with
  | none =>
    rw [Cluster.attempt_of_none here]
    exact unison
  | some member =>
    obtain ⟨connected, alike⟩ := unison.follows member (List.mem_of_getElem? here)
    obtain ⟨number, known'⟩ := Option.isSome_iff_exists.mp connected
    obtain ⟨sent, core⟩ := member.peer.core_attempt ambient capture
    have same : leader.core = member.peer.core := alike
    have nothing : member.peer.outbox = [] := alike.outbox ▸ unison.drained
    have outbox :
        (member.peer.attempt ambient capture).outbox = sent.map PendingCommand.message := by
      have all := congrArg Core.outbox core
      rw [nothing, List.append_nil] at all
      exact all
    rw [Cluster.attempt_of_some here known', outbox]
    refine { unison with
      follows := fun other present => ?_
      content := ⟨unison.content.undivided, unison.content.keeps⟩
      hears := fun peer bytes waiting => ?_ }
    · rcases List.mem_or_eq_of_mem_set present with present | rfl
      · exact unison.follows other present
      · refine ⟨connected, ?_⟩
        have drained : (member.peer.attempt ambient capture).drainOutbox.2.core =
            { member.peer.core with outbox := [] } := by
          have emptied (peer : Peer W) :
            peer.drainOutbox.2.core = { peer.core with outbox := [] } := rfl
          rw [emptied, core]
        rw [Peer.Alike, drained, ← same, ← unison.drained]
        rfl
    · rcases List.mem_append.mp waiting with new | old
      · obtain ⟨message, captured, here⟩ := List.mem_map.mp new
        have among : message ∈ sent.map PendingCommand.message :=
          List.mem_reverse.mp (List.mem_reverse.mp captured)
        obtain ⟨pending, _, rfl⟩ := List.mem_map.mp among
        cases here
      · exact unison.hears peer bytes old

/-- The authority tells all the same, and they have room for the same of it. -/
theorem release (unison : Unison known leader cluster)
    (inside : cluster.authority.tick.toNat + 1 < UInt32.size) :
    Unison known (leader.posted cluster.authority.step.1) cluster.release := by
  obtain ⟨content, nothing, tick, limits⟩ := unison.content.step unison.voices.coherent unison.hears
  obtain ⟨arrived, messages, among⟩ := Inbox.messages_postAll cluster.authority.step.1 leader.inbox
  have later {limit : Tick} (below : limit ≤ cluster.authority.tick) :
      limit ≤ cluster.authority.step.2.tick := by
    rw [tick, UInt32.le_iff_toNat_le, Tick.toNat_next inside]
    exact Nat.le_succ_of_le (UInt32.le_iff_toNat_le.mp below)
  refine ⟨fun member present => ?_, unison.drained,
    ⟨?_, fun limited => later (unison.limited.within limited), ?_⟩,
    ⟨unison.voices.coherent, unison.voices.past, unison.voices.voiced,
      unison.voices.representable⟩, content, ?_⟩
  · have members :
      cluster.release.members = cluster.members.map (Member.tell cluster.authority.step.1) := rfl
    rw [members] at present
    obtain ⟨before, there, rfl⟩ := List.mem_map.mp present
    exact (unison.follows before there).tell _
  · rcases unison.limited.given with given | ⟨limit, coming⟩
    · exact .inl given
    · refine .inr ⟨limit, ?_⟩
      have there : Inbound.tickLimit limit ∈ leader.inbox.messages ++ arrived :=
        List.mem_append_left _ coming
      rw [← messages] at there
      exact there
  · intro limit coming
    have coming :
      Inbound.tickLimit limit ∈ (leader.inbox.postAll cluster.authority.step.1).messages := coming
    rw [messages] at coming
    rcases List.mem_append.mp coming with before | new
    · exact later (unison.limited.coming before)
    · rw [limits limit (among _ new), ← tick]
      exact UInt32.le_refl _
  · intro peer bytes waiting
    have waiting : (peer, Outbound.opinion bytes) ∈ cluster.authority.step.2.waiting := waiting
    rw [nothing] at waiting
    cases waiting

end Unison

variable [World W]

/-- Members like a peer that catches up catch up with the same reports, and what they voice goes to
the authority. -/
theorem Cluster.catchUpEach_of_follows {leader final : Peer W} {answer : List TickReport}
    (caught : leader.catchUp = some (answer, final)) {members : List (Member W)}
    (follows : ∀ member ∈ members, member.Follows leader) (authority : Authority) :
    ∃ after heard, catchUpEach members authority =
        some (members.map fun _ => answer, after,
          { authority with waiting := heard ++ authority.waiting }) ∧
      after.length = members.length ∧ (∀ member ∈ after, member.Follows final.drainOutbox.2) ∧
      ∀ message ∈ heard, message.2 ∈ final.outbox := by
  induction members generalizing authority with
  | nil =>
    refine ⟨[], [], rfl, rfl, fun member present => ?_, fun message present => ?_⟩
    · cases present
    · cases present
  | cons member members ih =>
    obtain ⟨here, rest⟩ := List.forall_mem_cons.mp follows
    obtain ⟨other, caught', alike⟩ := here.alike.catchUp caught
    obtain ⟨number, known⟩ := Option.isSome_iff_exists.mp here.connected
    obtain ⟨after, heard, others, length, follows', voiced⟩ :=
      ih rest (authority.collect number other.outbox.reverse)
    have delivered : ({ member with peer := other } : Member W).deliver authority =
        ({ member with peer := other.drainOutbox.2 },
            authority.collect number other.outbox.reverse) := by
      simp only [Member.deliver, known]
      rfl
    refine ⟨{ member with peer := other.drainOutbox.2 } :: after, heard ++
      other.outbox.map (number, ·), ?_, ?_, ?_, ?_⟩
    · simp only [catchUpEach, caught', bind, Option.bind, delivered, others]
      simp only [Authority.collect, List.reverse_reverse, List.append_assoc]
      rfl
    · rw [List.length_cons, List.length_cons, length]
    · intro peer present
      rcases List.mem_cons.mp present with rfl | present
      · exact ⟨here.connected, alike.drained⟩
      · exact follows' peer present
    · intro message present
      rcases List.mem_append.mp present with later | mine
      · exact voiced message later
      · obtain ⟨said, there, rfl⟩ := List.mem_map.mp mine
        exact alike.outbox ▸ there

namespace Unison

variable {known : DriftOpinion → Prop} {leader : Peer W} {cluster : Cluster W}

/-- A step returns, with the same reports from all, and leaves the cluster in unison. -/
theorem step (unison : Unison known leader cluster)
    (inside : cluster.authority.tick.toNat + 2 < UInt32.size) :
    ∃ answer after, cluster.step = some (cluster.members.map fun _ => answer, after) ∧
      after.members.length = cluster.members.length ∧
        after.authority.tick = cluster.authority.tick.next ∧
      ∃ more leader', Unison more leader' after := by
  have released := unison.release (by omega)
  have later : cluster.release.authority.tick = cluster.authority.tick.next :=
    (unison.content.step unison.voices.coherent unison.hears).2.2.1
  have ticks : cluster.release.authority.tick.toNat = cluster.authority.tick.toNat + 1 := by
    rw [later, Tick.toNat_next (by omega)]
  obtain ⟨limit, limited, below⟩ := released.limited.pump
  have inside' : limit.toNat + 1 < UInt32.size := by
    have reached := UInt32.le_iff_toNat_le.mp below
    omega
  obtain ⟨records, answer, final, caught, works⟩ := Peer.catchUp_arrives limited inside'
  have idle := Peer.idle_pump limited
  obtain ⟨more, grows, voices⟩ := works.voices idle inside' released.voices.pump
  obtain ⟨idle', _⟩ := works.idle idle inside'
  obtain ⟨after, heard, stepped, length, follows, voiced⟩ :=
    Cluster.catchUpEach_of_follows caught released.follows cluster.release.authority
  have members :
    cluster.release.members = cluster.members.map (Member.tell cluster.authority.step.1) := rfl
  have waited : cluster.release.authority.waiting = [] :=
    (unison.content.step unison.voices.coherent unison.hears).2.1
  rw [waited, List.append_nil] at stepped
  refine ⟨answer, { cluster.release with
    authority := { cluster.release.authority with waiting := heard }
    members := after }, ?_, ?_, later, more, final.drainOutbox.2, follows, rfl, ?_, ?_, ?_, ?_⟩
  · have answers : cluster.release.members.map (fun _ => answer) =
        cluster.members.map fun _ => answer := by
      rw [members, List.map_map]
      rfl
    simp only [Cluster.step, bind, Option.bind, stepped, answers]
    rfl
  · rw [length, members, List.length_map]
  · refine ⟨.inl ?_, fun limits => ?_, fun coming => ?_⟩
    · exact Option.isSome_iff_exists.mpr ⟨limit, idle'.limited⟩
    · cases idle'.limited.symm.trans limits
      exact below
    · have none : final.inbox.messages = [] := idle'.empty
      have coming : Inbound.tickLimit _ ∈ final.inbox.messages := coming
      rw [none] at coming
      cases coming
  · refine ⟨voices.coherent, voices.past, fun {bytes} impossible => ?_, voices.representable⟩
    have impossible : Outbound.opinion bytes ∈ [] := impossible
    cases impossible
  · exact ⟨released.content.undivided, released.content.keeps.mono grows⟩
  · intro peer bytes waiting
    exact voices.voiced (voiced _ waiting)

end Unison

end Lockstep
