import Lockstep.Handler.Ambient
import Lockstep.Proofs.Schema.Limits

/-! # The ambient input of a command

The flagged parts of the ambient input travel with a command and are what its handler finds; the others
are as if nothing were pointed at.
-/

namespace Lockstep

open Decoder

namespace Ambient

/-- The flagged parts alone. What is nothing is not selected. -/
def restrict (flags : ContextFlags) (ambient : Ambient) : Ambient where
  mouse := if flags.mouse then ambient.mouse else none
  selection := if flags.selection then ambient.selection.filter (!·.isNull) else []
  queueModifier := if flags.queueModifier then ambient.queueModifier else false

/-- The ambient input with each selected item as a reader knows it. -/
def resolve (registry : Registry) (resolver : Resolver) (scope : ScopeId) (ambient : Ambient) :
    Ambient :=
  { ambient with selection := Registry.resolve.resolveAll registry resolver scope ambient.selection }

/-- The values of the ambient input that travel, with their types. -/
def parts (flags : ContextFlags) (selectionType : Ty) (ambient : Ambient) : List (Ty × Value) :=
  if flags.selection then [(.list selectionType, .list ambient.selection)] else []

variable {registry : Registry} {flags : ContextFlags} {selectionType : Ty} {ambient : Ambient}
  {bytes : Bytes}

/-! ## Three parts -/

/-- The bytes of the ambient input are those of its parts. -/
theorem encode_eq_ok (written : ambient.encode registry flags selectionType = .ok bytes) :
    ∃ selection,
      (if flags.selection then registry.encode (.list selectionType) (.list ambient.selection)
        else .ok []) = .ok selection ∧
      bytes = (if flags.mouse then match ambient.mouse with
        | some cell => 1 :: (Bytes.ofInt32 cell.x ++ Bytes.ofInt32 cell.z)
        | none => [0] else []) ++
          (selection ++ if flags.queueModifier then [ambient.queueModifier.toUInt8] else []) := by
  simp only [encode] at written
  split at written
  next flagged =>
    obtain ⟨selection, chosen, flat⟩ := bind_eq_ok.mp written
    cases flat
    exact ⟨selection, by rw [if_pos flagged, chosen], rfl⟩
  next unflagged =>
    cases written
    exact ⟨[], if_neg unflagged, rfl⟩

/-- The parts are read one after another. -/
theorem decode_eq (resolver : Resolver) (context : WireContext) :
    Ambient.decode registry resolver context flags selectionType = do
      let mouse ← (if flags.mouse then liftM decodeMouse else pure none)
      let selection ← (if flags.selection then
          (fun items => (itemsOf items).filter (!·.isNull)) <$>
            registry.decode resolver context (.list selectionType)
        else pure [])
      let queueModifier ← (if flags.queueModifier then liftM bool else pure false)
      return { mouse, selection, queueModifier } := by
  cases flags with
  | mk mouse selection modifier =>
    cases mouse <;> cases selection <;> cases modifier <;> simp [Ambient.decode]

theorem reads_mouse (mouse : Option Cell) :
    Reads decodeMouse (match mouse with
      | some cell => 1 :: (Bytes.ofInt32 cell.x ++ Bytes.ofInt32 cell.z)
      | none => [0]) mouse := by
  cases mouse with
  | none => exact (reads_bool false).bind_last (.pure none)
  | some cell =>
    exact (reads_bool true).bind ((reads_int32 cell.x).bind ((reads_int32 cell.z).bind_last (.pure _)))

theorem reads_modifier (held : Bool) : Reads bool [held.toUInt8] held := by
  cases held with
  | false => exact reads_bool false
  | true => exact reads_bool true

/-- A part that travels only if it is flagged. -/
theorem reads_flagged {α : Type} {decoder : Decoder FormatError α} {value : α} (default : α)
    (reads : Reads decoder bytes value) (flag : Bool) :
    Reads (if flag then liftM decoder else pure default : Decoder DecodeError α)
      (if flag then bytes else []) (if flag then value else default) := by
  cases flag with
  | false => exact .pure default
  | true => exact reads.lift

/-- A selection is read without what is gone. -/
theorem readsIff_selection (sound : registry.Sound)
    (written : (if flags.selection then
        registry.encode (.list selectionType) (.list ambient.selection) else .ok []) = .ok bytes)
    (resolver : Resolver) (context : WireContext) :
    ReadsIff (if flags.selection then
        (fun items => (itemsOf items).filter (!·.isNull)) <$>
          registry.decode resolver context (.list selectionType)
      else pure []) bytes
      (∀ part ∈ ambient.parts flags selectionType, registry.Fits part.1 part.2)
      ((ambient.resolve registry resolver context.lookupScope).restrict flags).selection := by
  unfold parts restrict
  split at written
  next flagged =>
    simp only [flagged, if_true]
    have reads := (registry.readsIff_decode sound written resolver context).map
      fun items => (itemsOf items).filter (!·.isNull)
    exact reads.limits (by simp)
  next unflagged =>
    cases written
    simp only [unflagged, Bool.false_eq_true, if_false]
    exact (ReadsIff.of_reads (.pure [])).limits (by simp)

/-! ## The whole -/

/-- Ambient input that was written is read as its flagged parts exactly if the selection fits. -/
theorem readsIff (sound : registry.Sound)
    (written : ambient.encode registry flags selectionType = .ok bytes) (resolver : Resolver)
    (context : WireContext) :
    ReadsIff (Ambient.decode registry resolver context flags selectionType) bytes
      (∀ part ∈ ambient.parts flags selectionType, registry.Fits part.1 part.2)
      ((ambient.resolve registry resolver context.lookupScope).restrict flags) := by
  obtain ⟨selection, chosen, rfl⟩ := encode_eq_ok written
  rw [decode_eq]
  have mouse := reads_flagged none (reads_mouse ambient.mouse) flags.mouse
  have chosen := readsIff_selection sound chosen resolver context
  have modifier := reads_flagged false (reads_modifier ambient.queueModifier) flags.queueModifier
  refine .after mouse (ReadsIff.limits ?_ (iff_of_eq (and_true _)).symm)
  exact chosen.bind (.of_reads (modifier.bind_last (.pure _)))

end Ambient

end Lockstep
