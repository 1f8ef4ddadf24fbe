import Lockstep.Proofs.Format.Digest
import Lockstep.Proofs.Handler.Numbers

/-! # What the fingerprint of a table notices

Of each handler the fingerprint takes in the number, the name, the kind and the declared properties. The
properties take the same room whatever they are, so changing one of them in one place changes one byte of
what is taken in, and that the digest notices (`notices_any_one_change`).
-/

namespace Lockstep

/-- One of the declared properties is another: the flags, the mark for the debug mode, or one byte of the
version. -/
inductive HandlerMeta.ChangedOnce (info : HandlerMeta) : HandlerMeta → Prop
  | flags {flags : ContextFlags} (other : info.flags ≠ flags) : ChangedOnce info { info with flags }
  | debugOnly {debugOnly : Bool} (other : info.debugOnly ≠ debugOnly) :
    ChangedOnce info { info with debugOnly }
  | version {version : UInt16}
    (other : Bytes.DifferOnce (.ofUInt16 info.version) (.ofUInt16 version)) :
    ChangedOnce info { info with version }

/-- What a fingerprint takes in of a handler, but for its number. -/
structure HandlerProfile where
  name : String
  kind : String
  info : HandlerMeta

def Handler.profile {W : Type} (handler : Handler W) : HandlerProfile :=
  ⟨handler.name, handler.kind, handler.info⟩

/-- Two tables with the same types, and with handlers of the same names and kinds that have the same
properties but for one of them, where one property is another. -/
inductive HandlerTable.ChangedOnce {W W' : Type} (table : HandlerTable W) (other : HandlerTable W') : Prop
  | intro (registries : table.registry = other.registry) (before after : List HandlerProfile)
    (profile : HandlerProfile) {info : HandlerMeta} (changed : profile.info.ChangedOnce info)
    (profiles : table.handlers.map (·.profile) = before ++ profile :: after)
    (profiles' : other.handlers.map (·.profile) = before ++ { profile with info } :: after)

theorem ContextFlags.bits_injective : Function.Injective bits := by
  rintro ⟨mouse, selection, queueModifier⟩ ⟨mouse', selection', queueModifier'⟩
  revert mouse selection queueModifier mouse' selection' queueModifier'
  decide

/-- A version is written in twice the width that it needs. -/
theorem Bytes.ofUInt32_toUInt32 (version : UInt16) :
    ofUInt32 version.toUInt32 = ofUInt16 version ++ [0, 0] := by
  have small : version.toNat / 256 / 256 = 0 := by have := version.toNat_lt; omega
  simp [ofUInt32, ofUInt16, ofNat, small]

namespace HandlerMeta

variable {info other : HandlerMeta}

def digestBytes (info : HandlerMeta) : Bytes :=
  .ofUInt32 info.version.toUInt32 ++ [info.flags.bits, info.debugOnly.toUInt8]

theorem ChangedOnce.differOnce (changed : info.ChangedOnce other) :
    info.digestBytes.DifferOnce other.digestBytes := by
  cases changed with
  | flags differ => exact Bytes.differOnce_of_split (ContextFlags.bits_injective.ne differ) _ _
  | @debugOnly debugOnly differ =>
    have marks : info.debugOnly.toUInt8 ≠ debugOnly.toUInt8 := by
      revert differ
      cases info.debugOnly <;> cases debugOnly <;> decide
    exact (Bytes.differOnce_of_split marks [info.flags.bits] []).append_left _
  | version differ =>
    rw [digestBytes, digestBytes, Bytes.ofUInt32_toUInt32, Bytes.ofUInt32_toUInt32]
    exact (differ.append_right _).append_right _

end HandlerMeta

namespace HandlerTable

variable {W W' : Type}

def profileBytes (id : Nat) (profile : HandlerProfile) : Bytes :=
  .ofUInt32 (UInt32.ofNat id) ++ (Digest.textBytes profile.name ++
    (Digest.textBytes profile.kind ++ profile.info.digestBytes))

/-- What a fingerprint takes in is a matter of the profiles. -/
theorem digestBytes_eq (table : HandlerTable W) : table.digestBytes =
    .ofUInt64 table.registry.fingerprint ++
      ((table.handlers.map (·.profile)).zipIdx.flatMap fun entry => profileBytes entry.2 entry.1) := by
  rw [digestBytes, List.zipIdx_map, List.flatMap_map]
  rfl

theorem ChangedOnce.differOnce {table : HandlerTable W} {other : HandlerTable W'}
    (changed : table.ChangedOnce other) : table.digestBytes.DifferOnce other.digestBytes := by
  obtain ⟨registries, before, after, profile, changed, profiles, profiles'⟩ := changed
  rw [digestBytes_eq, digestBytes_eq, registries, profiles, profiles', List.zipIdx_append,
    List.zipIdx_append, List.flatMap_append, List.flatMap_append, List.zipIdx_cons, List.zipIdx_cons,
    List.flatMap_cons, List.flatMap_cons]
  exact (((((changed.differOnce.append_left _).append_left _).append_left _).append_right
    _).append_left _).append_left _

end HandlerTable

/-- Byte strings that differ in one byte have different digests, and so have tables that differ in one
property of one handler. -/
theorem notices_any_one_change :
    (∀ first second : Bytes, first.DifferOnce second → Digest.ofBytes first ≠ Digest.ofBytes second) ∧
      ∀ {W W' : Type} (table : HandlerTable W) (other : HandlerTable W'), table.ChangedOnce other →
        table.fingerprint ≠ other.fingerprint :=
  ⟨fun _ _ differ => Digest.ofBytes_ne differ, fun _ _ changed => Digest.ofBytes_ne changed.differOnce⟩

/-- A roof whose version has another high byte is noticed, though a gate comes before it and a tower after
it. -/
theorem renewed_roof_is_noticed :
    ∃ table other,
      HandlerTable.build .bare none [.field (bareField "gate"), .field (bareField "roof"),
          .field (bareField "tower")] = .ok table ∧
        HandlerTable.build .bare none [.field (bareField "gate"),
          .field { bareField "roof" with info := { version := 257 } }, .field (bareField "tower")] =
          .ok other ∧
        table.ChangedOnce other ∧ table.fingerprint ≠ other.fingerprint ∧
        Bytes.DifferOnce [0, 1, 2] [0, 3, 2] ∧ Digest.ofBytes [0, 1, 2] ≠ Digest.ofBytes [0, 3, 2] := by
  have differ : Bytes.DifferOnce [0, 1, 2] [0, 3, 2] :=
    Bytes.differOnce_of_split (show (1 : UInt8) ≠ 3 by decide) [0] [2]
  have high : Bytes.DifferOnce (.ofUInt16 1) (.ofUInt16 257) :=
    Bytes.differOnce_of_split (show (0 : UInt8) ≠ 1 by decide) [1] []
  refine ⟨_, _, rfl, rfl, ?changed, notices_any_one_change.2 _ _ ?changed, differ,
    notices_any_one_change.1 _ _ differ⟩
  exact .intro rfl [(Handler.field (bareField "gate")).profile]
    [(Handler.field (bareField "tower")).profile] (Handler.field (bareField "roof")).profile
    (.version high) rfl rfl

end Lockstep
