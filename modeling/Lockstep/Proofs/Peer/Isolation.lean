import Lockstep.Proofs.Handler.Delivery
import Lockstep.Proofs.Peer.Chronicle
import Lockstep.Proofs.World.Lab

/-! # Commands that leave no trace

A command that is turned away before its handler is called, or that is passed over, has done nothing:
everything it could be turned away for is looked at before the first hook. So the commands of a tick
are independent of the idle ones among them (`runCommands_pick`), and whatever a handler does to the
ambient input of its own command, the next command and the scope find that of the tick
(`ambient_runCommands`).
-/

namespace Lockstep

/-- What came of a command shows that its handler has done nothing: there was no such handler, it could
not read the payload, or the command was passed over. -/
def CommandOutcome.isIdle : CommandOutcome → Bool
  | .ok .executed => false
  | .ok (.skipped _) => true
  | .error (.unknownHandler _) => true
  | .error error => error.isUnreadable

variable {W : Type}

/-! ## One command -/

/-- A callback that comes to its end has done its work. -/
structure Executes (body : Host HostFault W Applied) : Prop where
  result {state after : HostState W} {applied : Applied} :
    body state = .ok applied after → applied = .executed

/-- A callback that passes a command over has not changed anything before. -/
structure SkipsIdly (body : Host HostFault W Applied) : Prop where
  unchanged {state after : HostState W} {reason : SkipReason} :
    body state = .ok (.skipped reason) after → after = state

theorem Executes.pure : Executes (W := W) (pure .executed) := ⟨fun done => by cases done; rfl⟩

theorem Executes.bind {α : Type} {first : Host HostFault W α} {next : α → Host HostFault W Applied}
    (executes : ∀ value, Executes (next value)) : Executes (first >>= next) where
  result {state after applied} done := by
    change EStateM.bind first next state = .ok applied after at done
    unfold EStateM.bind at done
    split at done
    next value _ _ => exact (executes value).result done
    next => cases done

theorem Executes.skipsIdly {body : Host HostFault W Applied} (executes : Executes body) :
    SkipsIdly body := ⟨fun skipped => by cases executes.result skipped⟩

theorem SkipsIdly.pure (applied : Applied) : SkipsIdly (W := W) (pure applied) :=
  ⟨fun skipped => by cases skipped; rfl⟩

/-- A look at the state changes nothing. -/
theorem SkipsIdly.get_bind {next : HostState W → Host HostFault W Applied}
    (idly : ∀ state, SkipsIdly (next state)) : SkipsIdly (get >>= next) :=
  ⟨fun {state _ _} skipped => (idly state).unchanged skipped⟩

theorem FieldHandler.skipsIdly_run (handler : FieldHandler W) (context : CallContext)
    (call : FieldCall) : SkipsIdly (handler.run context call) := by
  unfold FieldHandler.run
  split
  next absent => exact .pure _
  next present =>
    refine Executes.skipsIdly ?_
    exact .bind fun _ => .bind fun _ => .bind fun _ => .pure

/-- Every rule that cancels an operation is looked at before the operation is invoked. -/
theorem OperationHandler.skipsIdly_run (handler : OperationHandler W) (context : CallContext)
    (call : OperationCall) : SkipsIdly (handler.run context call) := by
  have invoked : Executes (do handler.invoke context call.target call.arguments; return .executed) :=
    .bind fun _ => .pure
  unfold OperationHandler.run
  split
  next absent => exact .pure _
  next present =>
    split
    next argument _ => exact .pure _
    next complete =>
      refine .get_bind fun state => ?_
      split
      next unselected => exact .pure _
      next selected => exact invoked.skipsIdly

theorem ClosureHandler.skipsIdly_run (handler : ClosureHandler W) (context : CallContext)
    (environment : Environment) : SkipsIdly (handler.run context environment) := by
  refine Executes.skipsIdly ?_
  exact .bind fun _ => .pure

namespace HandlerTable

variable [World W] (table : HandlerTable W) (context : CallContext)

/-- How a command can end: with everything as it was, or at the hands of its handler, with the ambient
input of the caller back in its place. -/
inductive Ends (state : HostState W) : EStateM.Result ApplyFault (HostState W) Applied → Prop
  | turnedAway (error : CommandError) :
      CommandOutcome.isIdle (.error error) = true → Ends state (.error (.failed error) state)
  | skipped (reason : SkipReason) : Ends state (.ok (.skipped reason) state)
  | executed (after : HostState W) : Ends state (.ok .executed { after with ambient := state.ambient })
  | refused (name : String) (error : InvokeError) (after : HostState W) :
      Ends state (.error (.failed (.invoke name error)) { after with ambient := state.ambient })
  | brokeDown (breakdown : Breakdown) (after : HostState W) :
      Ends state (.error (.brokeDown breakdown) { after with ambient := state.ambient })

theorem ends_applyCall {γ : Type} (handler : Handler W) (wire : WireContext) (payload : Bytes)
    (decodeCall : ValueReader → Decoder DecodeError γ)
    {run : CallContext → γ → Host HostFault W Applied} (idly : ∀ call, SkipsIdly (run context call))
    (state : HostState W) :
    Ends state (table.applyCall handler context wire payload decodeCall run state) := by
  simp only [applyCall]
  split
  next source _ _ => exact .turnedAway _ rfl
  next ambient call rest _ =>
    split
    next whole =>
      unfold Host.withAmbient
      cases ran : run context call { state with ambient } with
      | ok applied after =>
        cases applied with
        | executed => exact .executed after
        | skipped reason =>
          cases (idly call).unchanged ran
          exact .skipped reason
      | error fault after =>
        cases fault with
        | refused error => exact .refused handler.name error after
        | brokeDown breakdown => exact .brokeDown breakdown after
    next trailing => exact .turnedAway _ rfl

theorem ends_apply (id : HandlerId) (payload : Bytes) (state : HostState W) :
    Ends state (table.apply context id payload state) := by
  rw [apply]
  cases table.get? id with
  | none => exact .turnedAway (.unknownHandler id) rfl
  | some handler =>
    by_cases debug : (handler.info.debugOnly && !context.debugMode) = true
    · simp only [if_pos debug]
      exact .skipped .debugDisabled
    · simp only [if_neg debug]
      cases handler with
      | field field =>
        exact table.ends_applyCall context _ _ payload _ (field.skipsIdly_run context) state
      | operation operation =>
        exact table.ends_applyCall context _ _ payload _ (operation.skipsIdly_run context) state
      | closure closure =>
        exact table.ends_applyCall context _ _ payload _ (closure.skipsIdly_run context) state

end HandlerTable

section Commands

variable [World W] (table : HandlerTable W) (context : CallContext)

/-- A command that shows to be idle leaves everything as it was. -/
theorem runCommand_of_idle {command : Command} {state : HostState W}
    (idle : (runCommand table context command state).1.isIdle = true) :
    (runCommand table context command state).2 = state := by
  have ends := table.ends_apply context command.handler command.payload state
  unfold runCommand at idle ⊢
  generalize table.apply context command.handler command.payload state = result at ends idle ⊢
  cases ends with
  | turnedAway | skipped => rfl
  | executed | refused | brokeDown => cases idle

/-- Every command leaves the ambient input that it found, also one that fails or breaks down. -/
theorem ambient_runCommand (command : Command) (state : HostState W) :
    (runCommand table context command state).2.ambient = state.ambient := by
  have ends := table.ends_apply context command.handler command.payload state
  unfold runCommand
  generalize table.apply context command.handler command.payload state = result at ends ⊢
  cases ends <;> rfl

/-! ## The commands of a tick -/

/-- The commands of a tick leave the ambient input that they found. -/
theorem ambient_runCommands (commands : List Command) (state : HostState W) :
    (runCommands table context commands state).2.ambient = state.ambient := by
  induction commands generalizing state with
  | nil => rfl
  | cons command commands ih =>
    rw [runCommands]
    exact (ih _).trans (ambient_runCommand table context command state)

/-- The items at the places that are kept. -/
def pick {α : Type} (keep : Nat → Bool) : List α → List α
  | [] => []
  | item :: items =>
    let rest := pick (fun place => keep (place + 1)) items
    if keep 0 then item :: rest else rest

theorem map_pick {α β : Type} (f : α → β) (keep : Nat → Bool) (items : List α) :
    (pick keep items).map f = pick keep (items.map f) := by
  induction items generalizing keep with
  | nil => rfl
  | cons item items ih =>
    simp only [pick, List.map_cons, ← ih]
    split <;> rfl

/-- Idle commands can be taken away: the others come out as before, in the same states, and leave the
same behind. -/
theorem runCommands_pick {keep : Nat → Bool} {commands : List Command} {state : HostState W}
    (idle : ∀ result ∈ pick (fun place => !keep place) (runCommands table context commands state).1,
      result.1.isIdle = true) :
    runCommands table context (pick keep commands) state =
      (pick keep (runCommands table context commands state).1,
        (runCommands table context commands state).2) := by
  induction commands generalizing keep state with
  | nil => rfl
  | cons command commands ih =>
    simp only [runCommands, pick] at idle ⊢
    by_cases kept : keep 0 = true
    · simp only [kept, Bool.not_true, Bool.false_eq_true, if_false, if_true] at idle ⊢
      simp only [runCommands, ih idle]
    · simp only [kept, Bool.not_false, Bool.false_eq_true, if_false, if_true] at idle ⊢
      obtain ⟨first, rest⟩ := List.forall_mem_cons.mp idle
      rw [runCommand_of_idle table context first] at rest ⊢
      exact ih rest

end Commands

namespace Peer

variable [World W]

/-- The commands of a tick are isolated from each other. Those that come out idle can be taken away and
leave the world, the stream and the outcomes of all others as they are; and no command, however it ends,
changes the ambient input that the next one and the scope find. -/
theorem isolates_commands (peer : Peer W) (scope : ScopeId) (state : ScopeState)
    (queue : CommandQueue) (keep : Nat → Bool)
    (left : queue.due state.next = pick keep (state.queue.due state.next))
    (idle : ∀ outcome ∈ pick (fun place => !keep place) (peer.outcomes scope state),
      outcome.isIdle = true) :
    ((peer.simulate scope { state with queue }).world = (peer.simulate scope state).world ∧
      (peer.simulate scope { state with queue }).state.stream =
        (peer.simulate scope state).state.stream ∧
      peer.outcomes scope { state with queue } = pick keep (peer.outcomes scope state)) ∧
    ∀ (context : CallContext) (commands : List Command) (host : HostState W),
      (runCommands peer.table context commands host).2.ambient = host.ambient := by
  refine ⟨?_, fun context commands host => ambient_runCommands peer.table context commands host⟩
  have idle' : ∀ result ∈ pick (fun place => !keep place)
      (runCommands peer.table { scope, tick := state.next, debugMode := peer.config.debugMode }
        (state.queue.due state.next) { world := peer.world, stream := state.stream }).1,
      result.1.isIdle = true := by
    intro result member
    refine idle _ ?_
    rw [outcomes, ← map_pick]
    exact List.mem_map_of_mem member
  have picked := runCommands_pick peer.table _ idle'
  rw [← left] at picked
  refine ⟨?_, ?_, ?_⟩
  · simp only [simulate, picked]
  · simp only [simulate, picked]
  · simp only [outcomes, picked, map_pick]

end Peer

/-! ## Among commands that go wrong -/

/-- The level, an operation for debugging only, and one that changes its ambient input, draws and then
breaks down. -/
def stormyTable : HandlerTable Lab :=
  ((Registry.build []).toOption.bind fun registry =>
    (HandlerTable.build registry none (Lab.handlers [.field level,
      .operation { name := "probe", target := .scalar .i32, arguments := [], script := []
                   info := { debugOnly := true } },
      .operation { name := "storm", target := .scalar .i32, arguments := []
                   script := [.setAmbient { queueModifier := true }, .drawU32,
                     .breakDown ⟨some "too much"⟩] }])).toOption).get
      (by decide +kernel)

def stormyPeer : Peer Lab := (Peer.create {} stormyTable {}).toOption.get (by decide +kernel)

def stormyCommand (handler : HandlerId) (payload : Bytes) : Command :=
  { handler, tick := 0, scope := .global, payload }

/-- Between two storms the level is set, and between that: a payload that ends too early, a handler that
does not exist, a payload that goes on, and the operation for debugging. -/
def stormyCommands : List Command := [
  stormyCommand 2 [1, 0, 0, 0],
  stormyCommand 0 [1], stormyCommand 7 [],
  levelCommand,
  stormyCommand 0 (levelCommand.payload ++ [0]), stormyCommand 1 [1, 0, 0, 0],
  stormyCommand 2 [1, 0, 0, 0]]

def stormyState : ScopeState :=
  { Peer.startScope {} .global 0 with queue := stormyCommands.foldl .push .empty }

/-- The level and the storms. -/
def calmQueue : CommandQueue :=
  [stormyCommand 2 [1, 0, 0, 0], levelCommand, stormyCommand 2 [1, 0, 0, 0]].foldl .push .empty

/-- The places of the level and the storms. -/
def isStormyPlace (place : Nat) : Bool := [0, 3, 6].contains place

theorem stormyPeer_isolates_commands :
    (pick (fun place => !isStormyPlace place)
        (stormyPeer.outcomes .global stormyState)).length = 4 ∧
      (∀ outcome ∈ pick (fun place => !isStormyPlace place)
        (stormyPeer.outcomes .global stormyState), outcome.isIdle = true) ∧
      stormyPeer.outcomes .global { stormyState with queue := calmQueue } =
        [.error (.brokeDown "storm" "too much"), .ok .executed,
          .error (.brokeDown "storm" "too much")] ∧
      (stormyPeer.simulate .global { stormyState with queue := calmQueue }).world =
        (stormyPeer.simulate .global stormyState).world := by
  have idle : ∀ outcome ∈ pick (fun place => !isStormyPlace place)
      (stormyPeer.outcomes .global stormyState), outcome.isIdle = true := by
    decide +kernel
  have isolated := Peer.isolates_commands stormyPeer .global stormyState calmQueue
    isStormyPlace (by decide +kernel) idle
  exact ⟨by decide +kernel, idle, isolated.1.2.2.trans (by decide +kernel), isolated.1.1⟩

end Lockstep
