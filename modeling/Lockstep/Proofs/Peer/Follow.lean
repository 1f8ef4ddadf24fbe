import Lockstep.Proofs.Peer.Abreast

/-! # Faithful peers

A peer abreast of its authority runs in each tick what the authority has stamped for it, and every
scope runs its ticks one after another. `Follows` keeps this account over whatever a peer does.
-/

namespace Lockstep

/-- How a command came out, counted in one of three ways. -/
theorem TickReport.total_ofOutcomes (scope : ScopeId) (tick : Tick) (stale : Nat)
    (outcomes : List CommandOutcome) :
    (TickReport.ofOutcomes scope tick stale outcomes).total = outcomes.length := by
  induction outcomes with
  | nil => rfl
  | cons outcome outcomes ih =>
    simp only [total, ofOutcomes] at ih ⊢
    rw [List.filterMap_cons, List.length_cons, ← ih]
    rcases outcome with error | (_ | reason)
    · rw [List.countP_cons_of_neg (by simp), List.countP_cons_of_neg (by simp), List.length_cons]
      omega
    · rw [List.countP_cons_of_pos rfl, List.countP_cons_of_neg (by simp)]
      dsimp only
      omega
    · rw [List.countP_cons_of_neg (by simp), List.countP_cons_of_pos rfl]
      dsimp only
      omega

theorem length_runCommands {W : Type} [World W] (table : HandlerTable W) (context : CallContext)
    (commands : List Command) (state : HostState W) :
    (runCommands table context commands state).1.length = commands.length := by
  induction commands generalizing state with
  | nil => rfl
  | cons command commands ih => exact congrArg (· + 1) (ih _)

/-- A tick ran the commands stamped for it and no others, none of them late, and the authority
allowed it. -/
structure TickRecord.Faithful (stamped : List Command) (authority : Tick) (record : TickRecord) :
    Prop where
  commands : record.commands = stamped.filter (·.isFor record.report.scope record.report.tick)
  total : record.report.total = record.commands.length
  stale : record.report.stale = 0
  allowed : record.report.tick ≤ authority

namespace Peer

variable {W : Type} [World W]

/-- A peer is abreast of an authority, and its past is in order: each tick ran what was stamped for
it, and each scope ran its ticks one after another from the first. -/
structure Follows (stamped : List Command) (authority : Tick) (past : List TickRecord)
  (incoming : List Inbound)
    (peer : Peer W) : Prop where
  abreast : Abreast stamped authority incoming peer
  faithful : ∀ record ∈ past, record.Faithful stamped authority
  ticks : ∀ scope next, peer.nextTick? scope = some next →
    (past.filter (·.report.scope == scope)).map (·.report.tick.toNat) = List.range next.toNat
  known : ∀ record ∈ past, (peer.nextTick? record.report.scope).isSome

variable {stamped : List Command} {authority : Tick} {incoming : List Inbound}
  {past : List TickRecord} {peer : Peer W} {scope : ScopeId} {state : ScopeState}

omit [World W] in
/-- A scope that is not held back is not beyond the authority. -/
theorem Abreast.next_le (abreast : Abreast stamped authority [] peer)
    (free : peer.tickLimit.any (· < state.next) = false) : state.next ≤ authority := by
  rcases abreast.told with limited | ⟨limit, member⟩
  · obtain ⟨limit, limited⟩ := Option.isSome_iff_exists.mp limited
    rw [limited, Option.any_some, decide_eq_false_iff_not, UInt32.not_lt] at free
    exact UInt32.le_trans free (abreast.limit limit limited)
  · cases member

/-- A tick runs what was stamped for it. -/
theorem Abreast.faithful (abreast : Abreast stamped authority [] peer)
    (found : peer.scopes.get? scope = some state)
    (free : peer.tickLimit.any (· < state.next) = false) :
    (peer.recordTick scope state).1.Faithful stamped authority := by
  have fresh : ∀ command ∈ state.queue.commands, state.next ≤ command.tick :=
    abreast.fresh scope state found
  have ran : state.queue.due state.next = stamped.filter (·.isFor scope state.next) := by
    rw [CommandQueue.due_eq_atTick fresh,
      ← abreast.complete scope state found state.next (UInt32.le_refl _)]
    simp [Inbound.commands]
  refine ⟨ran, ?_, ?_, abreast.next_le free⟩
  · apply (TickReport.total_ofOutcomes _ _ _ _).trans
    rw [List.length_map]
    exact length_runCommands _ _ _ _
  · exact CommandQueue.countStale_eq_zero fun command member =>
      fresh command (List.mem_filter.mp member).1

/-- A tick that is not held back leaves a peer abreast. -/
theorem Abreast.runTick (abreast : Abreast stamped authority [] peer)
    (found : peer.scopes.get? scope = some state)
    (free : peer.tickLimit.any (· < state.next) = false)
    (inside : authority.toNat + 1 < UInt32.size) :
    Abreast stamped authority [] (peer.runTick scope state).2 := by
  have reached : state.next.toNat ≤ authority.toNat :=
    UInt32.le_iff_toNat_le.mp (abreast.next_le free)
  have next : state.next.next.toNat = state.next.toNat + 1 := Tick.toNat_next (by omega)
  have limit := tickLimit_runTick peer scope state
  have allowed : (peer.runTick scope state).2.allowed = peer.allowed := by
    simp only [Peer.allowed, limit]
  refine ⟨abreast.limits, ?_, ?_, ?_, ?_, trivial, ?_⟩
  · rw [limit]
    exact abreast.limit
  · rw [limit]
    exact abreast.told
  · intro other after known
    rw [allowed]
    obtain ⟨rfl, rfl⟩ | ⟨-, known⟩ := Peer.get?_runTick.mp known
    · rw [next_stateAfter, next]
      rcases abreast.told with limited | ⟨_, member⟩
      · obtain ⟨bound, limited⟩ := Option.isSome_iff_exists.mp limited
        rw [limited, Option.any_some, decide_eq_false_iff_not, UInt32.not_lt,
          UInt32.le_iff_toNat_le] at free
        simp only [Peer.allowed, limited, Option.map_some, Option.getD_some]
        omega
      · cases member
    · exact abreast.paced other after known
  · intro other after known command member
    obtain ⟨rfl, rfl⟩ | ⟨-, known⟩ := Peer.get?_runTick.mp known
    · rw [queue_stateAfter] at member
      have beyond : state.next < command.tick := of_decide_eq_true (List.mem_filter.mp member).2
      rw [UInt32.lt_iff_toNat_lt] at beyond
      rw [next_stateAfter, UInt32.le_iff_toNat_le, next]
      exact beyond
    · exact abreast.fresh other after known command member
  · intro other after known tick reachedTick
    obtain ⟨rfl, rfl⟩ | ⟨-, known⟩ := Peer.get?_runTick.mp known
    · rw [next_stateAfter, UInt32.le_iff_toNat_le, next] at reachedTick
      have beyond : state.next < tick := UInt32.lt_iff_toNat_lt.mpr reachedTick
      rw [queue_stateAfter, CommandQueue.atTick_later _ beyond]
      exact abreast.complete other state found tick (UInt32.le_of_lt beyond)
    · exact abreast.complete other after known tick reachedTick

namespace Follows

omit [World W] in
theorem pump (follows : Follows stamped authority past peer.inbox.messages peer) :
    Follows stamped authority past [] peer.pump.2 := by
  refine ⟨follows.abreast.pump, follows.faithful, ?_, ?_⟩
  · simp only [nextTick?_pump]
    exact follows.ticks
  · simp only [nextTick?_pump]
    exact follows.known

/-- A tick that is not held back goes on record. -/
theorem recordTick (follows : Follows stamped authority past [] peer)
    (found : peer.scopes.get? scope = some state)
    (free : peer.tickLimit.any (· < state.next) = false)
    (inside : authority.toNat + 1 < UInt32.size) :
    Follows stamped authority (past ++ [(peer.recordTick scope state).1]) []
      (peer.recordTick scope state).2 := by
  have reached : state.next.toNat ≤ authority.toNat :=
    UInt32.le_iff_toNat_le.mp (follows.abreast.next_le free)
  have next : state.next.next.toNat = state.next.toNat + 1 := Tick.toNat_next (by omega)
  have here : peer.nextTick? scope = some state.next := by rw [nextTick?, found, Option.map_some]
  refine ⟨follows.abreast.runTick found free inside, ?_, ?_, ?_⟩
  · intro record member
    rcases List.mem_append.mp member with member | member
    · exact follows.faithful record member
    · rw [List.mem_singleton.mp member]
      exact follows.abreast.faithful found free
  · intro other following known
    rw [List.filter_append, List.map_append]
    by_cases same : other = scope
    · subst same
      change (peer.runTick other state).2.nextTick? other = some following at known
      rw [nextTick?_runTick_self, Option.some.injEq] at known
      rw [← known, next, List.range_succ, ← follows.ticks other state.next here]
      simp [Peer.recordTick, Peer.runTick, simulate, TickReport.ofOutcomes]
    · change (peer.runTick scope state).2.nextTick? other = some following at known
      rw [nextTick?_runTick_of_ne _ _ same] at known
      have apart : (scope == other) = false := beq_eq_false_iff_ne.mpr (Ne.symm same)
      rw [← follows.ticks other following known]
      simp [Peer.recordTick, Peer.runTick, simulate, TickReport.ofOutcomes, apart]
  · intro record member
    change ((peer.runTick scope state).2.nextTick? _).isSome
    by_cases same : record.report.scope = scope
    · rw [same, nextTick?_runTick_self]
      rfl
    · rw [nextTick?_runTick_of_ne _ _ same]
      rcases List.mem_append.mp member with member | member
      · exact follows.known record member
      · rw [List.mem_singleton.mp member] at same
        exact absurd rfl same

/-- Whatever a peer does, it keeps following its authority. -/
theorem works {final : Peer W} {records : List TickRecord} (works : Works peer records final)
    (follows : Follows stamped authority past peer.inbox.messages peer)
    (inside : authority.toNat + 1 < UInt32.size) :
    Follows stamped authority (past ++ records) final.inbox.messages final := by
  induction works generalizing past with
  | rest => rwa [List.append_nil]
  | @pump peer final records later ih =>
    have pumped := follows.pump
    apply ih
    rwa [inbox_pump]
  | @tick peer final scope state records found free later ih =>
    have ticked := follows.pump.recordTick found free inside
    rw [List.append_cons]
    apply ih
    have nothing : (peer.pump.2.recordTick scope state).2.inbox.messages = [] := by
      change (peer.pump.2.runTick scope state).2.inbox.messages = []
      rw [inbox_runTick, inbox_pump]
    rwa [nothing]

/-! ## Calls that return -/

/-- A live tick takes a scope to its next one. -/
theorem nextTick?_recordAdvance {after : Peer W} {record : TickRecord} {next : Tick}
    (known : peer.nextTick? scope = some next)
    (advanced : peer.recordAdvance scope = (.ok (some record), after)) :
    after.nextTick? scope = some next.next := by
  rw [← nextTick?_pump] at known
  obtain ⟨state, found, rfl⟩ := Option.map_eq_some_iff.mp known
  simp only [recordAdvance, found] at advanced
  split at advanced
  · cases advanced
  · cases advanced
    exact nextTick?_runTick_self _ _ _

/-- A run of at least as many ticks as are left comes to an end. -/
theorem isSome_recordWithin (follows : Follows stamped authority past peer.inbox.messages peer)
    (inside : authority.toNat + 1 < UInt32.size) (tick : Tick) {steps : Nat}
    (enough : ∀ next, peer.nextTick? scope = some next → tick.toNat + 1 - next.toNat ≤ steps) :
    (recordWithin scope tick steps peer).isSome := by
  induction steps generalizing peer past with
  | zero =>
    rw [recordWithin]
    cases known : peer.nextTick? scope with
    | none => rfl
    | some next =>
      have past : tick < next := UInt32.lt_iff_toNat_lt.mpr (by have := enough next known; omega)
      simp [past]
  | succ steps ih =>
    rw [recordWithin]
    cases known : peer.nextTick? scope with
    | none => rfl
    | some next =>
      dsimp only
      split
      · rfl
      · have step := works_recordAdvance peer scope
        rcases advanced : peer.recordAdvance scope with ⟨error | _ | record, after⟩
        · rfl
        · rfl
        · rw [advanced] at step
          have later := follows.works step inside
          have following := nextTick?_recordAdvance known advanced
          have reached : next.toNat ≤ authority.toNat := by
            rw [← nextTick?_pump] at known
            obtain ⟨state, found, rfl⟩ := Option.map_eq_some_iff.mp known
            simp only [recordAdvance, found] at advanced
            split at advanced
            · cases advanced
            next free =>
                exact UInt32.le_iff_toNat_le.mp
                  (follows.abreast.pump.next_le (Bool.eq_false_iff.mpr free))
          have one : next.next.toNat = next.toNat + 1 := Tick.toNat_next (by omega)
          rw [Option.isSome_map]
          refine ih later fun other same => ?_
          rw [following, Option.some.injEq] at same
          have bound := enough next known
          rw [← same, one]
          omega

/-- A run up to any tick comes to an end. -/
theorem isSome_recordUntil (follows : Follows stamped authority past peer.inbox.messages peer)
    (inside : authority.toNat + 1 < UInt32.size) (scope : ScopeId) (tick : Tick) :
    (peer.recordUntil scope tick).isSome := by
  refine follows.isSome_recordWithin inside tick fun next known => ?_
  rw [known]
  exact Nat.le_refl _

/-! ## Messages from the authority -/

omit [World W] in
theorem of_eq {other : Peer W} (follows : Follows stamped authority past incoming peer)
    (scopes : other.scopes = peer.scopes) (limit : other.tickLimit = peer.tickLimit) :
    Follows stamped authority past incoming other := by
  have next (scope : ScopeId) : other.nextTick? scope = peer.nextTick? scope := by
    simp only [nextTick?, scopes]
  refine ⟨follows.abreast.of_eq scopes limit, follows.faithful, ?_, ?_⟩
  · simp only [next]
    exact follows.ticks
  · simp only [next]
    exact follows.known

omit [World W] in
/-- A peer keeps following an authority that tells what it has stamped. -/
theorem hear {told : List Inbound} (follows : Follows stamped authority past incoming peer)
    (timely : ∀ message ∈ told, message.Timely authority) :
    Follows (stamped ++ Inbound.commands told) authority past (incoming ++ told) peer := by
  refine ⟨follows.abreast.hear timely, fun record member => ?_, follows.ticks, follows.known⟩
  have faithful := follows.faithful record member
  refine { faithful with commands := ?_ }
  -- What is stamped now is for ticks that no peer may have reached.
  have none :
      (Inbound.commands told).filter (·.isFor record.report.scope record.report.tick) = [] := by
    refine List.filter_eq_nil_iff.mpr fun arrived stamped => ?_
    obtain ⟨message, told, here⟩ := List.mem_filterMap.mp stamped
    cases message with
    | command other =>
      cases here
      have later : authority < arrived.tick := (timely _ told).2 arrived rfl
      have ran : record.report.tick ≤ authority := faithful.allowed
      intro same
      simp only [Command.isFor, Bool.and_eq_true, beq_iff_eq] at same
      rw [same.2] at later
      exact UInt32.not_lt.mpr ran later
    | tickLimit => cases here
    | opinion => cases here
    | diverged => cases here
  rw [List.filter_append, none, List.append_nil]
  exact faithful.commands

omit [World W] in
/-- A peer keeps following an authority that goes on and tells. -/
theorem hear_notice {later : Tick} (follows : Follows stamped authority past incoming peer)
    (above : authority ≤ later) :
    Follows stamped later past (incoming ++ [.tickLimit later]) peer := by
  refine ⟨follows.abreast.hear_notice above, fun record member => ?_, follows.ticks, follows.known⟩
  have faithful := follows.faithful record member
  exact { faithful with allowed := UInt32.le_trans faithful.allowed above }

end Follows

end Peer

end Lockstep
