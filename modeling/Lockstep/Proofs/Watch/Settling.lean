import Lockstep.Proofs.Watch.Buffer
import Lockstep.Proofs.Watch.Cells

/-! # Watches of whatever host

A host may refuse to have a field written, and it may break down on it. What opening and settling a
watch can come to then is listed here case by case (`Opens`, `Settles`), and what settling keeps,
closing any watch keeps (`endWatch_keeps`).
-/

namespace Lockstep

variable {W : Type}

/-- A field that the host does not set keeps an action of watches from going on. -/
theorem Watching.write_eq_error {handler : FieldHandler W} {scope : ScopeId} {target value : Value}
    {index : Option Int32} {world next : W} {fault : HostFault}
    (written : handler.set scope target index value world = .error fault next)
    (buffer : ChangeBuffer) :
    ∃ error, write handler scope target index value ⟨buffer, world⟩ = .error error ⟨buffer, next⟩ := by
  rw [write, written]
  cases fault with
  | refused source => exact ⟨_, rfl⟩
  | brokeDown breakdown => exact ⟨_, rfl⟩

theorem Watching.snd_run {α : Type} (action : Watching W α) (watched : Watched W) :
    (run action watched).2 = stateAfter (action watched) := by
  rw [run]
  cases action watched with
  | ok _ _ => rfl
  | error _ _ => rfl

namespace ChangeBuffer

variable {table : HandlerTable W} {buffer : ChangeBuffer} {world : W}

/-! ## Opening -/

/-- The buffer in which the change of a field takes a live value for what is agreed on. -/
def confirm (buffer : ChangeBuffer) (key : BufferKey) (live : Option Value) : ChangeBuffer :=
  buffer.update key fun change => { change with actual := live.getD change.actual }

/-- What opening a watch can leave: everything as it was, a watch that puts nothing back, or a change
that was put back, with the watch open if the host has taken it. -/
inductive Opens (table : HandlerTable W) (handle : Handle) (target : Value) (buffer : ChangeBuffer)
    (world : W) : Watched W → Prop
  | refused : Opens table handle target buffer world ⟨buffer, world⟩
  | plain {key : BufferKey} {field : FieldHandler W} :
      keyOf table handle key.scope target key.index = .ok (key, field) →
      (buffer.watches.any (·.key = key) = false → buffer.change? key = none) →
      Opens table handle target buffer world
        ⟨buffer.opened key handle target (field.get world key.scope target key.index)
          (buffer.watches.any (·.key = key)), world⟩
  | failed {key : BufferKey} {field : FieldHandler W} {change : BufferedChange} {next : W} :
      keyOf table handle key.scope target key.index = .ok (key, field) →
      buffer.watches.any (·.key = key) = false → buffer.change? key = some change →
      next = stateAfter (field.set key.scope target key.index change.pending world) →
      Opens table handle target buffer world
        ⟨buffer.confirm key (field.get world key.scope target key.index), next⟩
  | pending {key : BufferKey} {field : FieldHandler W} {change : BufferedChange} {next : W} :
      keyOf table handle key.scope target key.index = .ok (key, field) →
      buffer.watches.any (·.key = key) = false → buffer.change? key = some change →
      next = stateAfter (field.set key.scope target key.index change.pending world) →
      Opens table handle target buffer world
        ⟨(buffer.confirm key (field.get world key.scope target key.index)).opened key handle target
          (field.get next key.scope target key.index) false, next⟩

/-- A change that the host does not take back keeps the watch from opening. -/
theorem beginWatch_failed {handle : Handle} {scope : ScopeId} {target : Value} {index : Option Int32}
    {key : BufferKey} {field : FieldHandler W} {change : BufferedChange} {fault : HostFault} {next : W}
    (keyed : keyOf table handle scope target index = .ok (key, field))
    (fresh : buffer.watches.any (·.key = key) = false) (found : buffer.change? key = some change)
    (written : field.set scope target index change.pending world = .error fault next) :
    ∃ error, beginWatch table handle scope target index ⟨buffer, world⟩ =
      .error error ⟨buffer.confirm key (field.get world scope target index), next⟩ := by
  obtain ⟨error, failed⟩ := Watching.write_eq_error written
    (buffer.confirm key (field.get world scope target index))
  refine ⟨error, ?_⟩
  rw [confirm] at failed
  rw [beginWatch, keyed]
  simp only [bind, EStateM.bind, get, getThe, MonadStateOf.get, Watching.get_eq, fresh, found,
    Bool.false_eq_true, if_false, Watching.read_eq, Watching.editBuffer_eq, failed]
  rfl

/-- Opening a watch fails at its key, opens on what the world shows, or depends on whether the host takes
the change of the field back. -/
theorem beginWatch_cases (table : HandlerTable W) (buffer : ChangeBuffer) (world : W) (handle : Handle)
    (scope : ScopeId) (target : Value) (index : Option Int32) :
    (∃ error, beginWatch table handle scope target index ⟨buffer, world⟩ =
      .error (.capture error) ⟨buffer, world⟩) ∨
    ∃ key field, keyOf table handle scope target index = .ok (key, field) ∧
      ((buffer.watches.any (·.key = key) = false → buffer.change? key = none) ∧
        beginWatch table handle scope target index ⟨buffer, world⟩ = .ok buffer.nextSerial
          ⟨buffer.opened key handle target (field.get world scope target index)
            (buffer.watches.any (·.key = key)), world⟩ ∨
      buffer.watches.any (·.key = key) = false ∧ ∃ change, buffer.change? key = some change ∧
        ((∃ next, field.set scope target index change.pending world = .ok () next ∧
          beginWatch table handle scope target index ⟨buffer, world⟩ = .ok buffer.nextSerial
            ⟨(buffer.confirm key (field.get world scope target index)).opened key handle target
              (field.get next scope target index) false, next⟩) ∨
        ∃ fault next, field.set scope target index change.pending world = .error fault next ∧
          ∃ error, beginWatch table handle scope target index ⟨buffer, world⟩ =
            .error error ⟨buffer.confirm key (field.get world scope target index), next⟩)) := by
  cases keyed : keyOf table handle scope target index with
  | error error => exact .inl ⟨error, beginWatch_refused keyed⟩
  | ok found =>
    obtain ⟨key, field⟩ := found
    refine .inr ⟨key, field, rfl, ?_⟩
    cases plain : if buffer.watches.any (·.key = key) then none else buffer.change? key with
    | none =>
      refine .inl ⟨fun fresh => ?_, beginWatch_plain keyed plain⟩
      rw [fresh] at plain
      exact plain
    | some change =>
      cases fresh : buffer.watches.any (·.key = key) with
      | true =>
        rw [fresh] at plain
        cases plain
      | false =>
        rw [fresh] at plain
        have found : buffer.change? key = some change := plain
        refine .inr ⟨rfl, change, found, ?_⟩
        cases written : field.set scope target index change.pending world with
        | ok _ next => exact .inl ⟨next, rfl, beginWatch_pending keyed fresh found written⟩
        | error fault next =>
          exact .inr ⟨fault, next, rfl, beginWatch_failed keyed fresh found written⟩

theorem opens_beginWatch (handle : Handle) (scope : ScopeId) (target : Value)
    (index : Option Int32) :
    Opens table handle target buffer world
      (stateAfter (beginWatch table handle scope target index ⟨buffer, world⟩)) := by
  rcases beginWatch_cases table buffer world handle scope target index with
    ⟨error, refused⟩ | ⟨key, field, keyed, which⟩
  · rw [refused]
    exact .refused
  · obtain ⟨-, -, rfl, rfl⟩ := keyOf_eq_ok keyed
    rcases which with ⟨plain, opened⟩ |
      ⟨fresh, change, found, ⟨next, written, opened⟩ | ⟨fault, next, written, error, failed⟩⟩
    · rw [opened]
      exact .plain keyed plain
    · rw [opened]
      exact .pending keyed fresh found (by rw [written]; rfl)
    · rw [failed]
      exact .failed keyed fresh found (by rw [written]; rfl)

/-! ## Closing -/

/-- What settling a watch can leave: everything as it was; a change, with its edit if there was one,
and the field put back to what the change has for agreed on; or the field put back to what the watch
opened on, with the edit kept as a first change if the host has taken that. -/
inductive Settles (table : HandlerTable W) (watch : OpenWatch) (buffer : ChangeBuffer) (world : W) :
    Watched W → Prop
  | passed : Settles table watch buffer world ⟨buffer, world⟩
  | changed {id : HandlerId} {field : FieldHandler W} {change : BufferedChange}
      {before after : Value} {next : W} :
      watch.shadowed = false → table.field watch.handle = .ok (id, field) →
      buffer.change? watch.key = some change → watch.before = some before →
      field.get world watch.key.scope watch.target watch.key.index = some after →
      next = stateAfter
        (field.set watch.key.scope watch.target watch.key.index change.actual world) →
      Settles table watch buffer world
        ⟨if !after.equal before then
            buffer.update watch.key fun change => { change with pending := after, sent := false }
          else buffer, next⟩
  | edited {id : HandlerId} {field : FieldHandler W} {before after : Value} {left : ChangeBuffer}
      {next : W} :
      watch.shadowed = false → table.field watch.handle = .ok (id, field) →
      buffer.change? watch.key = none → watch.before = some before →
      field.get world watch.key.scope watch.target watch.key.index = some after →
      after.equal before = false →
      next = stateAfter (field.set watch.key.scope watch.target watch.key.index before world) →
      (left = buffer ∨ ∃ change : BufferedChange, left = buffer.add watch.key change ∧
        change.handle = watch.handle ∧ change.target = watch.target ∧
        change.scope = watch.key.scope ∧ change.index = watch.key.index) →
      Settles table watch buffer world ⟨left, next⟩

section Settle

variable {now : Nat} {currentTick : ScopeId → Option Tick} {watch : OpenWatch} {id : HandlerId}
  {field : FieldHandler W} {before after : Value} {fault : HostFault} {next : W}

/-- A watch on a handle that stands for no field any more is not settled. -/
theorem settle_unknown {error : CaptureError} (seen : watch.shadowed = false)
    (unknown : table.field watch.handle = .error error) :
    settle table now currentTick watch ⟨buffer, world⟩ =
      .error (.capture error) ⟨buffer, world⟩ := by
  rw [settle, seen, unknown]
  rfl

/-- A field that has gone is not settled. -/
theorem settle_gone (seen : watch.shadowed = false)
    (known : table.field watch.handle = .ok (id, field))
    (gone : field.get world watch.key.scope watch.target watch.key.index = none) :
    settle table now currentTick watch ⟨buffer, world⟩ = .ok .unresolved ⟨buffer, world⟩ := by
  rw [settle, seen, known]
  simp only [bind, EStateM.bind, get, getThe, MonadStateOf.get, Watching.get_eq,
    Bool.false_eq_true, if_false, Watching.read_eq, gone]
  cases buffer.change? watch.key with
  | none =>
    cases watch.before with
    | none => rfl
    | some before => rfl
  | some change =>
    cases watch.before with
    | none => rfl
    | some before => rfl

/-- A first edit that the host does not take back is not kept. -/
theorem settle_edited_failed (seen : watch.shadowed = false)
    (known : table.field watch.handle = .ok (id, field)) (fresh : buffer.change? watch.key = none)
    (opened : watch.before = some before)
    (left : field.get world watch.key.scope watch.target watch.key.index = some after)
    (differs : after.equal before = false)
    (written : field.set watch.key.scope watch.target watch.key.index before world =
      .error fault next) :
    ∃ error, settle table now currentTick watch ⟨buffer, world⟩ = .error error ⟨buffer, next⟩ := by
  obtain ⟨error, failed⟩ := Watching.write_eq_error written buffer
  refine ⟨error, ?_⟩
  rw [settle, seen, known]
  simp only [bind, EStateM.bind, get, getThe, MonadStateOf.get, Watching.get_eq,
    Bool.false_eq_true, if_false, Watching.read_eq, fresh, opened, left, differs, failed]

/-- A later edit replaces the change also where the host does not put the field back. -/
theorem settle_changed_failed {change : BufferedChange} (seen : watch.shadowed = false)
    (known : table.field watch.handle = .ok (id, field))
    (found : buffer.change? watch.key = some change) (opened : watch.before = some before)
    (left : field.get world watch.key.scope watch.target watch.key.index = some after)
    (written : field.set watch.key.scope watch.target watch.key.index change.actual world =
      .error fault next) :
    ∃ error, settle table now currentTick watch ⟨buffer, world⟩ =
      .error error ⟨if !after.equal before then
          buffer.update watch.key fun change => { change with pending := after, sent := false }
        else buffer, next⟩ := by
  obtain ⟨error, failed⟩ := Watching.write_eq_error written (if !after.equal before then
    buffer.update watch.key fun change => { change with pending := after, sent := false }
    else buffer)
  refine ⟨error, ?_⟩
  rw [settle, seen, known]
  simp only [bind, EStateM.bind, get, getThe, MonadStateOf.get, Watching.get_eq,
    Bool.false_eq_true, if_false, Watching.read_eq, found, opened, left]
  cases same : after.equal before with
  | true =>
    rw [same] at failed
    simp only [Bool.not_true, Bool.false_eq_true, if_false] at failed ⊢
    simp only [EStateM.bind, failed]
  | false =>
    rw [same] at failed
    simp only [Bool.not_false, if_true] at failed ⊢
    simp only [EStateM.bind, Watching.editBuffer_eq, failed]

theorem settles_settle : Settles table watch buffer world
    (stateAfter (settle table now currentTick watch ⟨buffer, world⟩)) := by
  cases seen : watch.shadowed with
  | true =>
    rw [settle_shadowed seen]
    exact .passed
  | false =>
    cases known : table.field watch.handle with
    | error error =>
      rw [settle_unknown seen known]
      exact .passed
    | ok found =>
      obtain ⟨id, field⟩ := found
      cases opened : watch.before with
      | none =>
        rw [settle_unresolved seen known opened]
        exact .passed
      | some before =>
        cases left : field.get world watch.key.scope watch.target watch.key.index with
        | none =>
          rw [settle_gone seen known left]
          exact .passed
        | some after =>
          cases found : buffer.change? watch.key with
          | some change =>
            cases written :
              field.set watch.key.scope watch.target watch.key.index change.actual world with
            | ok _ next =>
              rw [settle_changed seen known found opened left written]
              exact .changed seen known found opened left (by rw [written]; rfl)
            | error fault next =>
              obtain ⟨error, failed⟩ :=
                settle_changed_failed seen known found opened left written
              rw [failed]
              exact .changed seen known found opened left (by rw [written]; rfl)
          | none =>
            cases same : after.equal before with
            | true =>
              rw [settle_unchanged seen known found opened left same]
              exact .passed
            | false =>
              cases written :
                field.set watch.key.scope watch.target watch.key.index before world with
              | ok _ next =>
                rw [settle_edited seen known found opened left same written]
                exact .edited seen known found opened left same (by rw [written]; rfl)
                  (.inr ⟨_, rfl, rfl, rfl, rfl, rfl⟩)
              | error fault next =>
                obtain ⟨error, failed⟩ :=
                  settle_edited_failed seen known found opened left same written
                rw [failed]
                exact .edited seen known found opened left same (by rw [written]; rfl) (.inl rfl)

/-- Settling a watch opens and closes none, and uses up no serial number. -/
theorem stack_settle {left : Watched W}
    (settled : left = stateAfter (settle table now currentTick watch ⟨buffer, world⟩)) :
    left.buffer.watches = buffer.watches ∧ left.buffer.nextSerial = buffer.nextSerial := by
  have settles : Settles table watch buffer world left := by
    rw [settled]
    exact settles_settle
  cases settles with
  | passed => exact ⟨rfl, rfl⟩
  | changed =>
    dsimp only
    split
    · exact ⟨rfl, rfl⟩
    · exact ⟨rfl, rfl⟩
  | edited _ _ _ _ _ _ _ kept =>
    rcases kept with rfl | ⟨change, rfl, -⟩
    · exact ⟨rfl, rfl⟩
    · exact ⟨rfl, rfl⟩

theorem watches_settle : (stateAfter
    (settle table now currentTick watch ⟨buffer, world⟩)).buffer.watches = buffer.watches :=
  (stack_settle rfl).1

end Settle

section Closing

variable {now : Nat} {currentTick : ScopeId → Option Tick} (Kept : Watched W → Prop)
  (settles : ∀ {buffer : ChangeBuffer} {world : W} {watch : OpenWatch} {rest : List OpenWatch},
    Kept ⟨buffer, world⟩ → buffer.watches = watch :: rest →
      Kept (stateAfter (settle table now currentTick watch ⟨{ buffer with watches := rest }, world⟩)))

include settles

/-- What settling the innermost watch keeps, closing watches from the innermost on keeps. -/
theorem unwind_keeps {closing rest : List OpenWatch} (kept : Kept ⟨buffer, world⟩)
    (stack : buffer.watches = closing ++ rest) :
    Kept (stateAfter (unwind table now currentTick closing ⟨buffer, world⟩)) := by
  induction closing generalizing buffer world with
  | nil => exact kept
  | cons watch deeper ih =>
    have popped : buffer.watches.drop 1 = deeper ++ rest := by rw [stack]; rfl
    have next : Kept (stateAfter (settle table now currentTick watch
        ⟨{ buffer with watches := deeper ++ rest }, world⟩)) := settles kept stack
    have left : (stateAfter (settle table now currentTick watch
        ⟨{ buffer with watches := deeper ++ rest }, world⟩)).buffer.watches = deeper ++ rest :=
      watches_settle
    simp only [unwind, bind, EStateM.bind, Watching.editBuffer_eq, popped]
    cases settled : settle table now currentTick watch
        ⟨{ buffer with watches := deeper ++ rest }, world⟩ with
    | ok outcome after =>
      rw [settled] at next left
      exact ih next left
    | error error after =>
      rw [settled] at next left
      cases error with
      | brokeDown breakdown => exact next
      | _ => exact ih next left

/-- What settling the innermost watch keeps, closing any watch keeps. -/
theorem endWatch_keeps (kept : Kept ⟨buffer, world⟩) (serial : Nat) :
    Kept (stateAfter (endWatch table serial now currentTick ⟨buffer, world⟩)) := by
  cases stack : buffer.watches with
  | nil =>
    rw [endWatch_idle stack]
    exact kept
  | cons innermost rest =>
    by_cases inner : innermost.serial = serial
    · rw [endWatch_innermost stack inner]
      exact settles kept stack
    · cases known : (innermost :: rest).any (·.serial = serial) with
      | false =>
        rw [endWatch_closed stack inner known]
        exact kept
      | true =>
        have unwound := unwind_keeps Kept settles kept
          (List.take_append_drop (buffer.watches.findIdx (·.serial = serial) + 1) _).symm
        rw [endWatch_crossed stack inner known, stateAfter_bind]
        cases closed : unwind table now currentTick
            (buffer.watches.take (buffer.watches.findIdx (·.serial = serial) + 1))
            ⟨buffer, world⟩ with
        | ok _ _ =>
          rw [closed] at unwound
          exact unwound
        | error _ _ =>
          rw [closed] at unwound
          exact unwound

end Closing

end ChangeBuffer

end Lockstep
