import Lockstep.Proofs.Peer.Core
import Lockstep.Proofs.Ident

/-! # Peers abreast of their authority

A peer is abreast of an authority when all that the authority has stamped for a tick that the peer
has yet to simulate is in the queue of its scope or on the way, in the order of stamping, and no
command on the way is stamped for a tick that the limits before it allow. A tick that the limit
allows then runs exactly the commands stamped for it.
-/

namespace Lockstep

/-- Whether a command is one of a scope and stamped with a tick. -/
def Command.isFor (scope : ScopeId) (tick : Tick) (command : Command) : Bool :=
  command.scope == scope && command.tick == tick

namespace Inbound

/-- The commands among messages. -/
def commands (messages : List Inbound) : List Command :=
  messages.filterMap fun
    | .command arrived => some arrived
    | _ => none

@[simp] theorem commands_append (first second : List Inbound) :
    commands (first ++ second) = commands first ++ commands second := List.filterMap_append

/-- Every command among messages is stamped for a tick beyond those that the limits before it allow;
`allowed` is the number of ticks allowed at first. -/
def Ahead : Nat → List Inbound → Prop
  | _, [] => True
  | allowed, .command arrived :: messages => allowed ≤ arrived.tick.toNat ∧ Ahead allowed messages
  | allowed, .tickLimit limit :: messages => Ahead (max allowed (limit.toNat + 1)) messages
  | allowed, .opinion _ _ :: messages => Ahead allowed messages
  | allowed, .diverged _ :: messages => Ahead allowed messages

/-- What an authority at a tick tells besides the tick: commands stamped for ticks to come, and news
of divergences. -/
def Timely (authority : Tick) (message : Inbound) : Prop :=
  (∀ limit, message ≠ .tickLimit limit) ∧ ∀ arrived, message = .command arrived →
    authority < arrived.tick

/-- A command may follow messages whose limits stay below its stamp. -/
theorem Ahead.append_command {allowed : Nat} {messages : List Inbound} {arrived : Command}
    (ahead : Ahead allowed messages) (beyond : allowed ≤ arrived.tick.toNat)
    (below : ∀ limit, .tickLimit limit ∈ messages → limit.toNat < arrived.tick.toNat) :
    Ahead allowed (messages ++ [.command arrived]) := by
  induction messages generalizing allowed with
  | nil => exact ⟨beyond, trivial⟩
  | cons message messages ih =>
    have later (limit : Tick) (member : .tickLimit limit ∈ messages) :
        limit.toNat < arrived.tick.toNat :=
      below limit (List.mem_cons_of_mem _ member)
    cases message with
    | command other => exact ⟨ahead.1, ih ahead.2 beyond later⟩
    | tickLimit limit =>
      have here : limit.toNat < arrived.tick.toNat := below limit List.mem_cons_self
      have raised : Ahead (max allowed (limit.toNat + 1)) messages := ahead
      exact ih raised (by omega) later
    | opinion author bytes =>
      have rest : Ahead allowed messages := ahead
      exact ih rest beyond later
    | diverged divergence =>
      have rest : Ahead allowed messages := ahead
      exact ih rest beyond later

/-- A message other than a command may follow any messages. -/
theorem Ahead.append_other {allowed : Nat} {messages : List Inbound} {message : Inbound}
    (ahead : Ahead allowed messages) (other : commands [message] = []) :
    Ahead allowed (messages ++ [message]) := by
  induction messages generalizing allowed with
  | nil =>
    cases message with
    | command arrived => simp [commands] at other
    | tickLimit => trivial
    | opinion => trivial
    | diverged => trivial
  | cons head messages ih =>
    cases head with
    | command arrived => exact ⟨ahead.1, ih ahead.2⟩
    | tickLimit limit =>
      have raised : Ahead (max allowed (limit.toNat + 1)) messages := ahead
      exact ih raised
    | opinion author bytes =>
      have rest : Ahead allowed messages := ahead
      exact ih rest
    | diverged divergence =>
      have rest : Ahead allowed messages := ahead
      exact ih rest

end Inbound

namespace Peer

variable {W : Type}

/-- How many ticks of a scope the limit allows; without one, none is counted on. -/
def allowed (peer : Peer W) : Nat := (peer.tickLimit.map (·.toNat + 1)).getD 0

theorem allowed_raiseTickLimit (peer : Peer W) (limit : Tick) :
    (peer.raiseTickLimit limit).allowed = max peer.allowed (limit.toNat + 1) := by
  simp only [allowed, raiseTickLimit]
  cases peer.tickLimit with
  | none => simp
  | some old =>
    simp only [Option.map_some, Option.getD_some, Tick.toNat_max]
    omega

/-- With a command in a queue, a scope holds it in addition, or is the one that it was. -/
theorem of_get?_enqueue {peer : Peer W} {arrived : Command} {scope : ScopeId} {state : ScopeState}
    (found : (peer.enqueue arrived).scopes.get? scope = some state) :
    ∃ old, peer.scopes.get? scope = some old ∧ state.next = old.next ∧
      ((scope = arrived.scope ∧ state.queue = old.queue.push arrived) ∨
        (scope ≠ arrived.scope ∧ state.queue = old.queue)) := by
  simp only [enqueue] at found
  by_cases same : scope = arrived.scope
  · subst same
    rw [SortedMap.get?_modify_self, Option.map_eq_some_iff] at found
    obtain ⟨old, known, rfl⟩ := found
    exact ⟨old, known, rfl, .inl ⟨rfl, rfl⟩⟩
  · rw [SortedMap.get?_modify_of_ne _ _ same] at found
    exact ⟨state, found, rfl, .inr ⟨same, rfl⟩⟩

/-- A peer keeps up with an authority at a tick that has stamped these commands, given the messages
that the peer has yet to take in. -/
structure Abreast (stamped : List Command) (authority : Tick) (incoming : List Inbound)
    (peer : Peer W) : Prop where
  /-- No limit on the way runs ahead of the authority. -/
  limits : ∀ limit, .tickLimit limit ∈ incoming → limit ≤ authority
  /-- The peer's own limit does not either. -/
  limit : ∀ limit, peer.tickLimit = some limit → limit ≤ authority
  /-- A limit has been told. -/
  told : peer.tickLimit.isSome ∨ ∃ limit, .tickLimit limit ∈ incoming
  /-- No scope has run beyond the limit. -/
  paced : ∀ scope state, peer.scopes.get? scope = some state → state.next.toNat ≤ peer.allowed
  /-- No command in a queue has missed its tick. -/
  fresh : ∀ scope state, peer.scopes.get? scope = some state →
    ∀ command ∈ state.queue.commands, state.next ≤ command.tick
  /-- No command on the way can miss its tick. -/
  ahead : Inbound.Ahead peer.allowed incoming
  /-- What has been stamped for a tick to come is in the queue or on the way, in order. -/
  complete : ∀ scope state, peer.scopes.get? scope = some state → ∀ tick, state.next ≤ tick →
    state.queue.atTick tick ++ (Inbound.commands incoming).filter (·.isFor scope tick) =
      stamped.filter (·.isFor scope tick)

namespace Abreast

variable {stamped : List Command} {authority : Tick} {incoming : List Inbound} {peer : Peer W}

/-- Only the scopes and the limit of a peer matter. -/
theorem of_eq {other : Peer W} (abreast : Abreast stamped authority incoming peer)
    (scopes : other.scopes = peer.scopes) (limit : other.tickLimit = peer.tickLimit) :
    Abreast stamped authority incoming other := by
  have allowed : other.allowed = peer.allowed := by simp only [Peer.allowed, limit]
  refine ⟨abreast.limits, ?_, ?_, ?_, ?_, ?_, ?_⟩
  · rw [limit]
    exact abreast.limit
  · rw [limit]
    exact abreast.told
  · rw [scopes, allowed]
    exact abreast.paced
  · rw [scopes]
    exact abreast.fresh
  · rw [allowed]
    exact abreast.ahead
  · rw [scopes]
    exact abreast.complete

/-- A message on the way that is neither a command nor a limit makes no difference. -/
theorem drop_other {message : Inbound}
    (abreast : Abreast stamped authority (message :: incoming) peer)
    (command : Inbound.commands [message] = []) (limit : ∀ limit, message ≠ .tickLimit limit) :
    Abreast stamped authority incoming peer := by
  have commands : Inbound.commands (message :: incoming) = Inbound.commands incoming := by
    rw [← List.singleton_append, Inbound.commands_append, command, List.nil_append]
  refine ⟨fun bound member => abreast.limits bound (List.mem_cons_of_mem _ member), abreast.limit,
    ?_, abreast.paced,
    abreast.fresh, ?_, ?_⟩
  · refine abreast.told.imp_right fun ⟨bound, member⟩ => ⟨bound, ?_⟩
    exact (List.mem_cons.mp member).resolve_left fun same => limit bound same.symm
  · have ahead := abreast.ahead
    cases message with
    | command arrived => simp [Inbound.commands] at command
    | tickLimit bound => exact absurd rfl (limit bound)
    | opinion author bytes => exact ahead
    | diverged divergence => exact ahead
  · rw [← commands]
    exact abreast.complete

/-- A command on the way joins the queue of its scope. -/
theorem enqueue {arrived : Command}
    (abreast : Abreast stamped authority (.command arrived :: incoming) peer) :
    Abreast stamped authority incoming (peer.enqueue arrived) := by
  obtain ⟨beyond, ahead⟩ := abreast.ahead
  refine ⟨fun limit member => abreast.limits limit (List.mem_cons_of_mem _ member),
    abreast.limit, ?_, ?_, ?_, ahead, ?_⟩
  · rcases abreast.told with limited | ⟨limit, member⟩
    · exact .inl limited
    · rcases List.mem_cons.mp member with impossible | member
      · cases impossible
      · exact .inr ⟨limit, member⟩
  · intro scope state found
    obtain ⟨old, known, next, -⟩ := Peer.of_get?_enqueue found
    rw [next]
    exact abreast.paced scope old known
  · intro scope state found command member
    obtain ⟨old, known, next, ⟨rfl, queue⟩ | ⟨-, queue⟩⟩ := Peer.of_get?_enqueue found
    · rw [queue, CommandQueue.mem_push] at member
      rw [next]
      rcases member with rfl | member
      · exact UInt32.le_iff_toNat_le.mpr (Nat.le_trans (abreast.paced _ _ known) beyond)
      · exact abreast.fresh _ _ known _ member
    · rw [queue] at member
      rw [next]
      exact abreast.fresh _ _ known _ member
  · intro scope state found tick after
    obtain ⟨old, known, next, ⟨rfl, queue⟩ | ⟨other, queue⟩⟩ := Peer.of_get?_enqueue found
    · rw [← abreast.complete _ old known tick (next ▸ after), queue, CommandQueue.atTick_push,
        List.append_assoc]
      simp only [Inbound.commands, List.filterMap_cons, List.filter_cons, List.filter_nil,
        Command.isFor,
        beq_self_eq_true, Bool.true_and]
      split <;> rfl
    · rw [← abreast.complete _ old known tick (next ▸ after), queue]
      have apart : (arrived.scope == scope) = false := beq_eq_false_iff_ne.mpr (Ne.symm other)
      simp [Inbound.commands, Command.isFor, apart]

/-- A limit on the way becomes the peer's, if it is not lower. -/
theorem raiseTickLimit {limit : Tick}
    (abreast : Abreast stamped authority (.tickLimit limit :: incoming) peer) :
    Abreast stamped authority incoming (peer.raiseTickLimit limit) := by
  have allowed := allowed_raiseTickLimit peer limit
  refine ⟨fun bound member => abreast.limits bound (List.mem_cons_of_mem _ member), ?_, .inl rfl,
    ?_, abreast.fresh,
    ?_, abreast.complete⟩
  · intro bound raised
    have here : limit ≤ authority := abreast.limits limit List.mem_cons_self
    cases old : peer.tickLimit with
    | none =>
      simp only [Peer.raiseTickLimit, old, Option.map_none, Option.getD_none,
        Option.some.injEq] at raised
      exact raised ▸ here
    | some before =>
      have below : before ≤ authority := abreast.limit before old
      simp only [Peer.raiseTickLimit, old, Option.map_some, Option.getD_some,
        Option.some.injEq] at raised
      rw [UInt32.le_iff_toNat_le] at here below ⊢
      rw [← raised, Tick.toNat_max]
      omega
  · intro scope state found
    have paced : state.next.toNat ≤ peer.allowed := abreast.paced scope state found
    omega
  · rw [allowed]
    exact abreast.ahead

/-- Taking in a message keeps a peer abreast. -/
theorem receive {message : Inbound}
    (abreast : Abreast stamped authority (message :: incoming) peer) :
    Abreast stamped authority incoming (peer.receive message) := by
  cases message with
  | command arrived => exact abreast.enqueue
  | tickLimit limit => exact abreast.raiseTickLimit
  | opinion author bytes =>
    have core := core_receive_opinion peer author bytes
    have rest : Abreast stamped authority incoming peer := abreast.drop_other rfl nofun
    exact rest.of_eq (congrArg Core.scopes core) (congrArg Core.tickLimit core)
  | diverged divergence =>
    have core := core_receive_diverged peer divergence
    have rest : Abreast stamped authority incoming peer := abreast.drop_other rfl nofun
    exact rest.of_eq (congrArg Core.scopes core) (congrArg Core.tickLimit core)

theorem foldl_receive (abreast : Abreast stamped authority incoming peer) :
    Abreast stamped authority [] (incoming.foldl Peer.receive peer) := by
  induction incoming generalizing peer with
  | nil => exact abreast
  | cons message messages ih => exact ih abreast.receive

/-- A peer that has taken in its messages is abreast with nothing on the way. -/
theorem pump (abreast : Abreast stamped authority peer.inbox.messages peer) :
    Abreast stamped authority [] peer.pump.2 := by
  have emptied : Abreast stamped authority peer.inbox.messages peer.emptied := abreast.of_eq rfl rfl
  rw [pump_eq_foldl]
  exact emptied.foldl_receive

/-- A command stamped for a tick to come joins those on the way. -/
theorem hear_command {arrived : Command} (abreast : Abreast stamped authority incoming peer)
    (later : authority < arrived.tick) :
    Abreast (stamped ++ [arrived]) authority (incoming ++ [.command arrived]) peer := by
  have beyond : authority.toNat < arrived.tick.toNat := UInt32.lt_iff_toNat_lt.mp later
  have limits (limit : Tick) (member : .tickLimit limit ∈ incoming) :
      limit.toNat ≤ authority.toNat :=
    UInt32.le_iff_toNat_le.mp (abreast.limits limit member)
  refine ⟨?_, abreast.limit, ?_, abreast.paced, abreast.fresh, ?_, ?_⟩
  · intro limit member
    rcases List.mem_append.mp member with member | member
    · exact abreast.limits limit member
    · simp at member
  · exact abreast.told.imp_right fun ⟨limit, member⟩ => ⟨limit, List.mem_append_left _ member⟩
  · refine abreast.ahead.append_command ?_ fun limit member => by have := limits limit member; omega
    cases limit : peer.tickLimit with
    | none => simp [Peer.allowed, limit]
    | some bound =>
      have below : bound.toNat ≤ authority.toNat :=
        UInt32.le_iff_toNat_le.mp (abreast.limit bound limit)
      simp only [Peer.allowed, limit, Option.map_some, Option.getD_some]
      omega
  · intro scope state found tick after
    rw [Inbound.commands_append, List.filter_append, List.filter_append, ← List.append_assoc,
      abreast.complete scope state found tick after]
    rfl

/-- A message that is neither a command nor a limit may join those on the way. -/
theorem hear_other {message : Inbound} (abreast : Abreast stamped authority incoming peer)
    (command : Inbound.commands [message] = []) (limit : ∀ limit, message ≠ .tickLimit limit) :
    Abreast stamped authority (incoming ++ [message]) peer := by
  refine ⟨?_, abreast.limit, ?_, abreast.paced, abreast.fresh,
    abreast.ahead.append_other command, ?_⟩
  · intro bound member
    rcases List.mem_append.mp member with member | member
    · exact abreast.limits bound member
    · exact absurd (List.mem_singleton.mp member).symm (limit bound)
  · exact abreast.told.imp_right fun ⟨bound, member⟩ => ⟨bound, List.mem_append_left _ member⟩
  · rw [Inbound.commands_append, command, List.append_nil]
    exact abreast.complete

/-- The authority goes on to a later tick and tells. -/
theorem hear_notice {later : Tick} (abreast : Abreast stamped authority incoming peer)
    (above : authority ≤ later) : Abreast stamped later (incoming ++ [.tickLimit later]) peer := by
  refine ⟨?_, ?_, ?_, abreast.paced, abreast.fresh, abreast.ahead.append_other rfl, ?_⟩
  · intro limit member
    rcases List.mem_append.mp member with member | member
    · exact UInt32.le_trans (abreast.limits limit member) above
    · cases List.mem_singleton.mp member
      exact UInt32.le_refl _
  · exact fun limit limited => UInt32.le_trans (abreast.limit limit limited) above
  · exact .inr ⟨later, List.mem_append_right _ (List.mem_singleton.mpr rfl)⟩
  · rw [Inbound.commands_append]
    simpa [Inbound.commands] using abreast.complete

/-- A peer stays abreast of an authority that tells what it has stamped. -/
theorem hear {told : List Inbound} (abreast : Abreast stamped authority incoming peer)
    (timely : ∀ message ∈ told, message.Timely authority) :
    Abreast (stamped ++ Inbound.commands told) authority (incoming ++ told) peer := by
  induction told generalizing stamped incoming with
  | nil => simpa [Inbound.commands] using abreast
  | cons message told ih =>
    have here := timely message List.mem_cons_self
    have heard :
        Abreast (stamped ++ Inbound.commands [message]) authority (incoming ++ [message]) peer := by
      cases message with
      | command arrived => exact abreast.hear_command (here.2 arrived rfl)
      | tickLimit limit => exact absurd rfl (here.1 limit)
      | opinion author bytes =>
        have nothing : Inbound.commands [.opinion author bytes] = [] := rfl
        rw [nothing, List.append_nil]
        exact abreast.hear_other nothing nofun
      | diverged divergence =>
        have nothing : Inbound.commands [.diverged divergence] = [] := rfl
        rw [nothing, List.append_nil]
        exact abreast.hear_other nothing nofun
    have later := ih heard fun other member => timely other (List.mem_cons_of_mem _ member)
    rwa [List.append_assoc, List.append_assoc, ← Inbound.commands_append] at later

end Abreast

end Peer

end Lockstep
