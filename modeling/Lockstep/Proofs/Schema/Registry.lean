import Lockstep.Proofs.Association
import Lockstep.Proofs.Success
import Lockstep.Schema.Registry

/-! # What holds of every registry

A registry that is built declares each name once. Its interfaces have fewer implementations than an
index can count, and each of them is declared and is no interface itself.
-/

namespace Lockstep

namespace Registry

variable {declared after : Declared} {registry : Registry}

/-- Names are declared once, and implementations are declared types other than interfaces. -/
structure Tidy (declared : Declared) : Prop where
  distinct : (declared.map (·.1)).Nodup
  concrete {name concrete : String} {implementations : List String} :
    declared.lookup name = some (.interface implementations) → concrete ∈ implementations →
      ∃ descriptor, declared.lookup concrete = some descriptor ∧
        ∀ others, descriptor ≠ .interface others

/-! ## Declared types -/

theorem tidy_builtin : Tidy builtin where
  distinct := List.pairwise_singleton _ _
  concrete := by
    intro name concrete implementations found
    rw [builtin, List.lookup_cons] at found
    split at found
    · cases found
    · cases found

/-- A type enters under a new name and mentions no implementations yet. -/
theorem Tidy.declare {name : String} {descriptor : Descriptor} (tidy : Tidy declared)
    (bare : ∀ implementations, descriptor = .interface implementations → implementations = [])
    (success : Registry.declare declared name descriptor = .ok after) : Tidy after := by
  unfold Registry.declare at success
  split at success
  next => cases success
  next fresh =>
    cases success
    have fresh : declared.lookup name = none := Option.not_isSome_iff_eq_none.mp fresh
    have kept {other : String} {found : Descriptor} (there : declared.lookup other = some found) :
        (declared ++ [(name, descriptor)]).lookup other = some found := by
      rw [List.lookup_append, there, Option.some_or]
    refine ⟨?_, fun {interface concrete implementations} found member => ?_⟩
    · rw [List.map_append, List.map_singleton, List.nodup_append]
      refine ⟨tidy.distinct, List.pairwise_singleton _ _, ?_⟩
      intro other listed last only same
      obtain ⟨entry, member, rfl⟩ := List.mem_map.mp listed
      have apart := List.lookup_eq_none_iff.mp fresh entry member
      rw [List.mem_singleton.mp only] at same
      simp [same] at apart
    · rw [List.lookup_append] at found
      cases before : declared.lookup interface with
      | some previous =>
        rw [before, Option.some_or] at found
        cases found
        obtain ⟨descriptor, there, plain⟩ := tidy.concrete before member
        exact ⟨descriptor, kept there, plain⟩
      | none =>
        rw [before, Option.none_or, List.lookup_cons] at found
        split at found
        · rw [bare implementations (Option.some.inj found)] at member
          cases member
        · cases found

theorem Tidy.addDeclaration {declaration : Declaration} (tidy : Tidy declared)
    (success : Registry.addDeclaration declared declaration = .ok after) : Tidy after := by
  cases declaration with
  | enumeration name repr discriminants =>
    simp only [Registry.addDeclaration] at success
    split at success
    · cases success
    · split at success
      · cases success
      · exact tidy.declare (by intro _ impossible; cases impossible) success
  | record name fields => exact tidy.declare (by intro _ impossible; cases impossible) success
  | reference name categories =>
    simp only [Registry.addDeclaration] at success
    split at success
    · exact tidy.declare (by intro _ impossible; cases impossible) success
    · cases success
  | interface name =>
      exact tidy.declare (fun _ same => (Descriptor.interface.inj same).symm) success
  | implementation interface concrete =>
    cases success
    exact tidy

/-- Changing the descriptors of interfaces only. -/
theorem Tidy.map {f : String → Descriptor → Descriptor} (tidy : Tidy declared)
    (plain : ∀ {name descriptor}, declared.lookup name = some descriptor →
      (∀ others, descriptor ≠ .interface others) → f name descriptor = descriptor)
    (abstract : ∀ {name implementations},
      declared.lookup name = some (.interface implementations) →
        ∃ others, f name (.interface implementations) = .interface others ∧ ∀ concrete ∈ others,
          ∃ descriptor, declared.lookup concrete = some descriptor ∧
            ∀ others, descriptor ≠ .interface others) :
    Tidy (declared.map fun entry => (entry.1, f entry.1 entry.2)) := by
  refine ⟨?_, fun {name concrete implementations} found member => ?_⟩
  · have names :
      (declared.map fun entry => (entry.1, f entry.1 entry.2)).map (·.1) = declared.map (·.1) := by
      rw [List.map_map]
      rfl
    rw [names]
    exact tidy.distinct
  · rw [lookup_map] at found
    obtain ⟨descriptor, before, changed⟩ := Option.map_eq_some_iff.mp found
    have implements : ∃ descriptor, declared.lookup concrete = some descriptor ∧
        ∀ others, descriptor ≠ .interface others := by
      cases descriptor with
      | interface previous =>
        obtain ⟨others, same, declared⟩ := abstract before
        rw [same] at changed
        cases changed
        exact declared concrete member
      | enumeration _ _ | record _ | reference _ | scope =>
        rw [plain before (fun _ impossible => nomatch impossible)] at changed
        cases changed
    obtain ⟨descriptor, there, concrete⟩ := implements
    refine ⟨descriptor, ?_, concrete⟩
    rw [lookup_map, there, Option.map_some, plain there concrete]

theorem Tidy.addImplementation {interface concrete : String} (tidy : Tidy declared)
    (success : Registry.addImplementation declared interface concrete = .ok after) :
    Tidy after := by
  unfold Registry.addImplementation at success
  split at success
  next => cases success
  next => cases success
  next descriptor plain found =>
    split at success
    next implementations interfaceFound =>
      split at success
      next =>
        cases success
        exact tidy
      next =>
        cases success
        have entries : (declared.map fun entry => if entry.1 == interface then
            (interface, Descriptor.interface (implementations ++ [concrete])) else entry) =
            declared.map fun entry => (entry.1, if entry.1 == interface then
              Descriptor.interface (implementations ++ [concrete]) else entry.2) := by
          refine List.map_congr_left fun entry _ => ?_
          by_cases same : entry.1 = interface
          · simp [same]
          · simp [same]
        rw [entries]
        refine tidy.map (f := fun name other =>
          if name == interface then Descriptor.interface (implementations ++ [concrete]) else other)
          (fun {name other} there simple => ?_) fun {name others} there => ?_
        · refine if_neg fun same => ?_
          rw [eq_of_beq same, interfaceFound] at there
          exact simple implementations (Option.some.inj there).symm
        · by_cases same : name = interface
          · subst same
            refine ⟨implementations ++ [concrete], if_pos (beq_self_eq_true name),
              fun other member => ?_⟩
            rcases List.mem_append.mp member with member | member
            · exact tidy.concrete interfaceFound member
            · rw [List.mem_singleton.mp member]
              exact ⟨descriptor, found, fun others equal => plain others (equal ▸ rfl)⟩
          · refine ⟨others, if_neg (by simpa using same),
              fun other member => tidy.concrete there member⟩
    next => cases success

theorem Tidy.sortImplementations (tidy : Tidy declared) :
    Tidy (declared.map fun entry => (entry.1, Registry.sortImplementations entry.2)) := by
  refine tidy.map (f := fun _ => Registry.sortImplementations) (fun {_ descriptor} _ plain => ?_)
    fun {name implementations} found => ?_
  · cases descriptor with
    | interface others => exact absurd rfl (plain others)
    | _ => rfl
  · refine ⟨_, rfl, ?_⟩
    intro concrete member
    exact tidy.concrete found ((sortByName_perm id implementations).mem_iff.mp member)

/-! ## Registries -/

/-- What reading relies on: no index of an implementation stands for no value, and no implementation
is an interface. -/
structure Sound (registry : Registry) : Prop where
  few {name : String} {implementations : List String} :
    registry.descriptor? name = some (.interface implementations) → implementations.length < 65535
  concrete {name concrete : String} {implementations : List String} :
    registry.descriptor? name = some (.interface implementations) → concrete ∈ implementations →
      ∃ descriptor, registry.descriptor? concrete = some descriptor ∧
        ∀ others, descriptor ≠ .interface others

/-- The index of an implementation fits into its field, and is not the mark for no value. -/
theorem Sound.index_spec {name concrete : String} {implementations : List String} {index : Nat}
    (sound : registry.Sound)
    (declared : registry.descriptor? name = some (.interface implementations))
    (listed : implementations[index]? = some concrete) :
    (UInt16.ofNat index).toNat = index ∧ UInt16.ofNat index ≠ 0xffff := by
  obtain ⟨inside, _⟩ := List.getElem?_eq_some_iff.mp listed
  have few := sound.few declared
  have small : index < UInt16.size := by
    have size : UInt16.size = 65536 := rfl
    omega
  have number : (UInt16.ofNat index).toNat = index := UInt16.toNat_ofNat_of_lt' small
  refine ⟨number, ?_⟩
  intro same
  rw [same] at number
  have mark : (0xffff : UInt16).toNat = 65535 := rfl
  omega

theorem build_eq_ok {declarations : List Declaration} (built : build declarations = .ok registry) :
    ∃ declared, Tidy declared ∧ checkCounts declared = .ok () ∧
      checkDependencies declared = .ok () ∧
      registry.types = .ofList declared := by
  obtain ⟨types, typesOk, built⟩ := bind_eq_ok.mp built
  obtain ⟨declared, implemented, built⟩ := bind_eq_ok.mp built
  obtain ⟨_, counts, built⟩ := bind_eq_ok.mp built
  obtain ⟨_, dependencies, built⟩ := bind_eq_ok.mp built
  cases built
  have tidy : Tidy types := foldlM_keeps Tidy.addDeclaration tidy_builtin typesOk
  have tidy : Tidy declared := foldlM_keeps Tidy.addImplementation tidy implemented
  exact ⟨_, tidy.sortImplementations, counts, dependencies, rfl⟩

theorem sound_of_build {declarations : List Declaration}
    (built : build declarations = .ok registry) : registry.Sound := by
  obtain ⟨declared, tidy, counts, _, types⟩ := build_eq_ok built
  have found (name : String) : registry.descriptor? name = declared.lookup name := by
    rw [descriptor?, types, SortedMap.get?_ofList tidy.distinct]
  refine ⟨fun {name implementations} interface => ?_,
    fun {name concrete implementations} interface member => ?_⟩
  · rw [found] at interface
    obtain ⟨before, behind, same, _⟩ := List.lookup_eq_some_iff.mp interface
    have checked := forM_eq_ok.mp counts (name, .interface implementations) (by rw [same]; simp)
    simp only at checked
    split at checked
    next => cases checked
    next few => exact Nat.not_le.mp few
  · rw [found] at interface
    obtain ⟨descriptor, there, plain⟩ := tidy.concrete interface member
    exact ⟨descriptor, (found concrete).trans there, plain⟩

/-- The registry without declarations. -/
def bare : Registry := ⟨.ofList builtin⟩

theorem build_nil : build [] = .ok bare := by rfl

end Registry

end Lockstep
