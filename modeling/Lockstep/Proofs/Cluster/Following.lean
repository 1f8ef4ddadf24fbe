import Lockstep.Proofs.Cluster.History
import Lockstep.Proofs.Peer.Inbox

/-! # Peers that follow their authority

All peers of a cluster follow its authority when nothing has been simulated yet, and they go on to
follow it whatever one of them does and whatever the authority tells, as long as it stamps ahead and
every message finds room.
-/

namespace Lockstep

variable {W : Type}

/-- A member with more messages in its inbox. -/
def Member.hear (messages : List Inbound) (member : Member W) : Member W :=
  { member with peer := { member.peer with
      inbox := { member.peer.inbox with messages := member.peer.inbox.messages ++ messages } } }

theorem Member.tell_of_room {member : Member W} {messages : List Inbound}
    (connected : member.number.isSome) (listening : member.peer.inbox.isClosed = false)
    (room : member.hasRoom messages.length) : member.tell messages = member.hear messages := by
  obtain ⟨number, known⟩ := Option.isSome_iff_exists.mp connected
  simp only [Member.hasRoom, known, Option.isNone_some, Bool.false_or, decide_eq_true_eq] at room
  simp only [Member.tell, Member.hear, known, Inbox.foldl_post_of_room listening room]

/-- A peer has joined an authority at its first tick, has been told so, and has simulated
nothing. -/
structure Member.Fresh (member : Member W) : Prop where
  connected : member.number.isSome
  listening : member.peer.inbox.isClosed = false
  told : member.peer.inbox.messages = [.tickLimit 0]
  unlimited : member.peer.tickLimit = none
  first : ∀ scope state, member.peer.scopes.get? scope = some state → state.next = 0 ∧
    state.queue = .empty

namespace History

/-- The peers are connected, listen and follow the authority, which stamps ahead. -/
structure Sound (history : History W) : Prop where
  delayed : 0 < history.cluster.authority.delay.toNat
  connected : ∀ member ∈ history.cluster.members, member.number.isSome
  listening : ∀ member ∈ history.cluster.members, member.peer.inbox.isClosed = false
  follows : ∀ place (member : Member W), history.cluster.members[place]? = some member →
    member.peer.Follows history.stamped history.cluster.authority.tick
      (history.ran place) member.peer.inbox.messages

/-- Nothing has been simulated: the peers, whatever their worlds and scopes, have joined an
authority that is at its first tick and stamps ahead. -/
structure Fresh (history : History W) : Prop where
  delayed : 0 < history.cluster.authority.delay.toNat
  start : history.cluster.authority.tick = 0
  members : ∀ member ∈ history.cluster.members, member.Fresh
  nothingStamped : history.stamped = []
  nothingRan : ∀ place, history.ran place = []

/-- The authority never stamps for a tick that a scope cannot reach: the tick and the delay stay
below the last tick. -/
def Roomy (history : History W) : Prop :=
  history.cluster.authority.tick.toNat + history.cluster.authority.delay.toNat + 1 < UInt32.size

variable {history : History W}

theorem Fresh.sound (fresh : history.Fresh) : history.Sound := by
  refine ⟨fresh.delayed, fun member here => (fresh.members member here).connected,
    fun member here => (fresh.members member here).listening, fun place member here => ?_⟩
  obtain ⟨-, -, told, unlimited, first⟩ := fresh.members member (List.mem_of_getElem? here)
  have allowed : member.peer.allowed = 0 := by rw [Peer.allowed, unlimited]; rfl
  rw [fresh.nothingStamped, fresh.start, fresh.nothingRan, told]
  have none (record : TickRecord) : record ∉ [] := List.not_mem_nil
  refine ⟨⟨?_, ?_, ?_, ?_, ?_, trivial, ?_⟩, fun record ran => absurd ran (none record), ?_,
    fun record ran => absurd ran (none record)⟩
  · intro limit told
    cases List.mem_singleton.mp told
    exact UInt32.le_refl _
  · intro limit limited
    rw [unlimited] at limited
    cases limited
  · exact .inr ⟨0, List.mem_singleton.mpr rfl⟩
  · intro scope state found
    rw [allowed, (first scope state found).1]
    exact Nat.le_refl _
  · intro scope state found command member
    rw [(first scope state found).2] at member
    cases member
  · intro scope state found tick after
    rw [(first scope state found).2]
    rfl
  · intro scope next known
    obtain ⟨state, found, rfl⟩ := Option.map_eq_some_iff.mp known
    rw [(first scope state found).1]
    rfl

theorem Roomy.inside (roomy : history.Roomy) :
    history.cluster.authority.tick.toNat + 1 < UInt32.size := by
  unfold Roomy at roomy
  omega

/-- An authority that tells leaves the peers following it, whether or not it goes on to another
tick. -/
theorem Sound.tell {after : History W} {told : List Inbound} {authority : Authority}
    (sound : history.Sound) (room : history.cluster.hasRoom told.length)
    (delay : authority.delay = history.cluster.authority.delay) (ran : after.ran = history.ran)
    (cluster : after.cluster = Cluster.tellAll told { history.cluster with authority })
    (heard : ∀ place (member : Member W), history.cluster.members[place]? = some member →
      member.peer.Follows after.stamped authority.tick (history.ran place)
        (member.peer.inbox.messages ++ told)) :
    after.Sound := by
  have members : after.cluster.members = history.cluster.members.map (Member.hear told) := by
    rw [cluster]
    refine List.map_congr_left fun member present => ?_
    exact Member.tell_of_room (sound.connected member present) (sound.listening member present)
      (List.all_eq_true.mp room member present)
  have same : after.cluster.authority = authority := by rw [cluster]; rfl
  refine ⟨?_, ?_, ?_, ?_⟩
  · rw [same, delay]
    exact sound.delayed
  · rw [members]
    intro member present
    obtain ⟨before, known, rfl⟩ := List.mem_map.mp present
    exact sound.connected before known
  · rw [members]
    intro member present
    obtain ⟨before, known, rfl⟩ := List.mem_map.mp present
    exact sound.listening before known
  · rw [members, same, ran]
    intro place member present
    rw [List.getElem?_map, Option.map_eq_some_iff] at present
    obtain ⟨before, known, rfl⟩ := present
    exact (heard place before known).of_eq rfl rfl

theorem Sound.pump (sound : history.Sound) (roomy : history.Roomy)
    (lossless : history.pump.lossless) : history.pump.Sound := by
  have room := (Bool.and_eq_true_iff.mp lossless).2
  refine sound.tell room (Authority.delay_pump _) rfl rfl fun place member present => ?_
  have timely := Authority.timely_pump sound.delayed (by unfold Roomy at roomy; omega)
  have heard := (sound.follows place member present).hear timely
  rw [Authority.commands_pump] at heard
  rwa [Authority.tick_pump]

theorem Sound.release (sound : history.Sound) (roomy : history.Roomy)
    (lossless : history.release.lossless) : history.release.Sound := by
  have room := (Bool.and_eq_true_iff.mp lossless).2
  have delay : history.cluster.authority.step.2.delay = history.cluster.authority.delay :=
    Authority.delay_pump _
  refine sound.tell room delay rfl rfl fun place member present => ?_
  have timely := Authority.timely_pump sound.delayed (by unfold Roomy at roomy; omega)
  have heard := (sound.follows place member present).hear timely
  rw [Authority.commands_pump] at heard
  have above : history.cluster.authority.tick ≤ history.cluster.authority.tick.next :=
    UInt32.le_iff_toNat_le.mpr (Tick.le_toNat_next _)
  have noticed := heard.hear_notice above
  rw [List.append_assoc] at noticed
  simpa [Authority.step, Authority.notice, History.release] using noticed

end History

/-! ## Calls to peers -/

variable [World W]

namespace PeerCall

variable {peer after : Peer W} {call : PeerCall} {records past : List TickRecord}
  {stamped : List Command} {authority : Tick}

/-- A call to a peer is a matter of taking in messages and simulating ticks, unless it is a
capture. -/
theorem works_or_captures (performed : call.perform peer = some (records, after)) :
    peer.Works records after ∨ records = [] ∧ after.scopes = peer.scopes ∧
      after.tickLimit = peer.tickLimit ∧
      after.inbox = peer.inbox := by
  cases call with
  | capture ambient request =>
    cases performed
    obtain ⟨sent, core⟩ := Peer.core_attempt peer ambient request
    exact .inr ⟨rfl, congrArg Core.scopes core, congrArg Core.tickLimit core,
      congrArg Core.inbox core⟩
  | pump =>
    cases performed
    exact .inl (.pump (.rest _))
  | advance scope =>
    cases performed
    exact .inl (Peer.works_recordAdvance peer scope)
  | advanceAll =>
    have works := Peer.works_recordAll peer
    rw [Option.some.inj performed] at works
    exact .inl works
  | runUntil scope tick =>
    obtain ⟨⟨result, _, _⟩, ran, same⟩ := Option.map_eq_some_iff.mp performed
    cases same
    exact .inl (Peer.works_recordWithin ran)

/-- No call takes a peer away from its authority. -/
theorem follows (performed : call.perform peer = some (records, after))
    (follows : peer.Follows stamped authority past peer.inbox.messages)
    (inside : authority.toNat + 1 < UInt32.size) :
    after.Follows stamped authority (past ++ records) after.inbox.messages := by
  rcases works_or_captures performed with works | ⟨rfl, scopes, limit, inbox⟩
  · exact follows.works works inside
  · rw [List.append_nil, inbox]
    exact follows.of_eq scopes limit

/-- No call closes an inbox. -/
theorem isClosed_perform (performed : call.perform peer = some (records, after)) :
    after.inbox.isClosed = peer.inbox.isClosed := by
  rcases works_or_captures performed with works | ⟨-, -, -, inbox⟩
  · exact works.isClosed
  · rw [inbox]

/-- Every call to a peer that follows its authority returns. -/
theorem isSome_perform (call : PeerCall)
    (follows : peer.Follows stamped authority past peer.inbox.messages)
    (inside : authority.toNat + 1 < UInt32.size) : (call.perform peer).isSome := by
  cases call with
  | capture => rfl
  | pump => rfl
  | advance => rfl
  | advanceAll => rfl
  | runUntil scope tick =>
    rw [perform, Option.isSome_map]
    exact follows.isSome_recordUntil inside scope tick

end PeerCall

namespace History

variable {history : History W}

/-- What a call to a peer comes to. -/
theorem act_eq_some {after : History W} {place : Nat} {call : PeerCall}
    (acted : history.act place call = some after) :
    ∃ member records peer, history.cluster.members[place]? = some member ∧
      call.perform member.peer = some (records, peer) ∧
      after = { history with
        cluster := { history.cluster with
          authority := (Member.deliver { member with peer } history.cluster.authority).2
          members :=
            history.cluster.members.set place
              (Member.deliver { member with peer } history.cluster.authority).1 }
        ran := fun other =>
          if other = place then history.ran place ++ records else history.ran other } := by
  obtain ⟨member, here, acted⟩ := Option.bind_eq_some_iff.mp acted
  obtain ⟨⟨records, peer⟩, performed, acted⟩ := Option.bind_eq_some_iff.mp acted
  refine ⟨member, records, peer, here, performed, ?_⟩
  obtain ⟨⟨_, cluster⟩, delivered, same⟩ := Option.bind_eq_some_iff.mp acted
  rw [← Option.some.inj same]
  simp only [Cluster.act, Cluster.member, here, bind, Except.bind, pure, Except.pure,
    Except.toOption,
    Option.some.injEq, Prod.mk.injEq, true_and] at delivered
  rw [← delivered]

/-- What a peer that follows its authority does leaves it so. -/
theorem Sound.act {after : History W} {place : Nat} {call : PeerCall} (sound : history.Sound)
    (roomy : history.Roomy) (acted : history.act place call = some after) : after.Sound := by
  obtain ⟨member, records, peer, here, performed, rfl⟩ := act_eq_some acted
  have inside : member ∈ history.cluster.members := List.mem_of_getElem? here
  obtain ⟨number, known⟩ := Option.isSome_iff_exists.mp (sound.connected member inside)
  have followed := PeerCall.follows performed (sound.follows place member here) roomy.inside
  refine ⟨?_, ?_, ?_, ?_⟩
  · simpa [Member.deliver, known, Authority.collect] using sound.delayed
  · intro other present
    rcases List.mem_or_eq_of_mem_set present with present | rfl
    · exact sound.connected other present
    · exact sound.connected member inside
  · intro other present
    rcases List.mem_or_eq_of_mem_set present with present | rfl
    · exact sound.listening other present
    · exact (PeerCall.isClosed_perform performed).trans (sound.listening member inside)
  · intro elsewhere other present
    simp only [Member.deliver, known, Authority.collect] at present ⊢
    rw [List.getElem?_set] at present
    split at present
    next same =>
      subst same
      split at present
      · cases present
        rw [if_pos rfl]
        exact followed.of_eq rfl rfl
      · cases present
    next apart =>
      rw [if_neg (Ne.symm apart)]
      exact sound.follows elsewhere other present

end History

end Lockstep
