import Lockstep.Proofs.Format.Failure
import Lockstep.Proofs.Schema.Declarations
import Lockstep.Proofs.Schema.RoundTrip

/-! # What registries never miss

A registry that is built is closed: what its types mention is declared, and its discriminants fit. So a
value is never written or read at a type that is not declared, whatever the value and whatever the bytes,
as long as the first type is declared (`spares_encode`, `spares_decode`).
-/

namespace Lockstep

/-- A value cannot be written because a type is not declared. -/
def EncodeError.IsUnknownType : EncodeError → Prop
  | unknownType _ => True
  | _ => False

/-- Bytes cannot be read because a type is not declared. -/
def DecodeError.IsUnknownType : DecodeError → Prop
  | unknownType _ => True
  | _ => False

namespace Registry

variable {registry : Registry} {declarations : List Declaration}

/-- A name is declared. -/
def Declares (registry : Registry) (name : String) : Prop :=
  ∃ descriptor, registry.descriptor? name = some descriptor

/-- A type mentions no name that is not declared. -/
def Knows (registry : Registry) (type : Ty) : Prop := ∀ name ∈ type.name?, registry.Declares name

theorem check_eq_ok {type : Ty} : registry.check type = .ok () ↔ registry.Knows type := by
  unfold check Knows
  cases type.name? with
  | none => simp
  | some name =>
    have found : registry.types.contains name = true ↔ registry.Declares name := Option.isSome_iff_exists
    simp only [Option.mem_some_iff, forall_eq', ← found]
    split
    · simp_all
    · simp_all

/-! ## Closed registries -/

/-- All that holds of the descriptors of a registry that was built: what they mention is declared,
implementations stand in name order, leave an index free and are no interfaces, and discriminants fit. -/
structure Closed (registry : Registry) : Prop extends registry.Sound where
  mentions : ∀ {name : String} {descriptor : Descriptor},
    registry.descriptor? name = some descriptor →
      ∀ dependency ∈ descriptor.dependencies, registry.Declares dependency
  ascending : ∀ {name : String} {implementations : List String},
    registry.descriptor? name = some (.interface implementations) →
      implementations.Pairwise fun a b => a < b
  holds : ∀ {name : String} {repr : ScalarKind} {discriminants : List Int64},
    registry.descriptor? name = some (.enumeration repr discriminants) →
      repr.isInteger = true ∧ ∀ discriminant ∈ discriminants, repr.holds discriminant = true

theorem pairwise_implementers (declarations : List Declaration) (interface : String) :
    (implementers declarations interface).Pairwise fun a b => a < b := by
  have perm := sortByName_perm id
    (((implementationPairs declarations).filter (interface = ·.1)).map (·.2)).dedup
  have distinct : ((implementers declarations interface).map id).Nodup := by
    rw [List.map_id]
    exact perm.nodup_iff.mpr (List.nodup_dedup _)
  exact pairwise_name_lt distinct (pairwise_sortByName id _)

/-- The discriminants of an enumeration fit, or it would not have been declared. -/
theorem holds_of_mem_declaredTypes (inOrder : ∀ declaration ∈ declarations, declaration.InOrder)
    {name : String} {repr : ScalarKind} {discriminants : List Int64}
    (member : (name, .enumeration repr discriminants) ∈ declaredTypes declarations) :
    repr.isInteger = true ∧ ∀ discriminant ∈ discriminants, repr.holds discriminant = true := by
  rcases List.mem_append.mp member with member | member
  · cases List.mem_singleton.mp member
  · obtain ⟨declaration, listed, declares⟩ := List.mem_filterMap.mp member
    have inOrder := inOrder declaration listed
    cases declaration with
    | enumeration name repr discriminants =>
      cases declares
      exact inOrder
    | reference name categories =>
      obtain ⟨category, -, impossible⟩ := Option.map_eq_some_iff.mp declares
      cases impossible
    | _ => cases declares

theorem closed_of_build (built : build declarations = .ok registry) : registry.Closed := by
  obtain ⟨consistent, -⟩ := build_eq_ok_iff.mp built
  have entry {name : String} {descriptor : Descriptor}
      (found : registry.descriptor? name = some descriptor) :
      ∃ plain, (name, plain) ∈ declaredTypes declarations ∧
        complete declarations name plain = descriptor := by
    obtain ⟨⟨other, plain⟩, member, same⟩ := List.mem_map.mp ((descriptor?_eq_some_iff built).mp found)
    cases same
    exact ⟨plain, member, rfl⟩
  refine ⟨sound_of_build built, fun found dependency member => ?_, fun {name _} found => ?_,
    fun {name repr discriminants} found => ?_⟩
  · have listed := consistent.closed _ ((descriptor?_eq_some_iff built).mp found) dependency member
    obtain ⟨⟨_, descriptor⟩, there, rfl⟩ := List.mem_map.mp listed
    exact ⟨descriptor, (descriptor?_eq_some_iff built).mpr there⟩
  · obtain ⟨plain, -, same⟩ := entry found
    cases plain with
    | interface others =>
      cases same
      exact pairwise_implementers declarations name
    | _ => cases same
  · obtain ⟨plain, member, same⟩ := entry found
    cases plain with
    | enumeration repr discriminants =>
      cases same
      exact holds_of_mem_declaredTypes consistent.inOrder member
    | _ => cases same

/-! ## Writing -/

theorem spares_format {α : Type} (computation : Except FormatError α) :
    Spares EncodeError.IsUnknownType (computation.mapError .format) :=
  .mapError fun _ => not_false

theorem spares_encodeId (type : String) (id : UInt32) :
    Spares EncodeError.IsUnknownType (encodeId type id) := by
  unfold encodeId
  split
  · exact .ok _
  · exact .error not_false

theorem spares_entity (type : String) (reference : EntityRef) :
    Spares EncodeError.IsUnknownType (reference.encode type) := by
  cases reference with
  | spawned id => exact (spares_encodeId type id).bind fun _ => .ok _
  | nested parent id =>
    exact (spares_encodeId type parent).bind fun _ => (spares_encodeId type id).bind fun _ => .ok _
  | inComponent owner slot id =>
    exact (spares_encodeId type owner).bind fun _ => (spares_encodeId type id).bind fun _ => .ok _

theorem spares_reference (type : String) (category : RefCategory) (value : Value) :
    Spares EncodeError.IsUnknownType (category.encode type value) := by
  unfold RefCategory.encode
  split
  case h_1 | h_3 | h_5 | h_6 | h_9 => exact .ok _
  case h_2 | h_7 | h_8 =>
    split
    · exact spares_encodeId _ _
    · exact .error not_false
  case h_4 =>
    split
    · split
      · exact .error not_false
      · exact .ok _
    · exact .error not_false
  case h_10 =>
    split
    · exact spares_entity _ _
    · exact .error not_false
  case h_11 => exact .error not_false

theorem spares_discriminant (type : String) (repr : ScalarKind) (discriminants : List Int64)
    (discriminant : Int64) :
    Spares EncodeError.IsUnknownType (encodeDiscriminant type repr discriminants discriminant) := by
  unfold encodeDiscriminant
  split
  · split
    · exact spares_format _
    · exact .error not_false
  · exact .error not_false

/-- A value is never written at a type that is not declared if the first one is. -/
def SparesEncoding (registry : Registry) (value : Value) : Prop :=
  ∀ type, registry.Knows type → Spares EncodeError.IsUnknownType (registry.encodeValue value type)

theorem spares_encodeItems {items : List Value} (each : ∀ item ∈ items, registry.SparesEncoding item)
    {element : Ty} (known : registry.Knows element) (chunks : List Bytes) :
    Spares EncodeError.IsUnknownType (registry.encodeItems items element chunks) := by
  induction items generalizing chunks with
  | nil =>
    rw [encodeItems]
    exact .ok _
  | cons item items ih =>
    obtain ⟨first, rest⟩ := List.forall_mem_cons.mp each
    rw [encodeItems]
    exact (first element known).bind fun chunk => ih rest (chunk :: chunks)

theorem spares_encodeFields {values : List Value} (each : ∀ value ∈ values, registry.SparesEncoding value)
    {fields : List Field} (known : ∀ field ∈ fields, registry.Knows field.type) (chunks : List Bytes) :
    Spares EncodeError.IsUnknownType (registry.encodeFields values fields chunks) := by
  induction values generalizing fields chunks with
  | nil =>
    rw [encodeFields]
    · exact .ok _
    · intro _ _ _ _ impossible
      cases impossible
  | cons value values ih =>
    cases fields with
    | nil =>
      rw [encodeFields]
      · exact .ok _
      · intro _ _ _ _ _ impossible
        cases impossible
    | cons field fields =>
      obtain ⟨first, rest⟩ := List.forall_mem_cons.mp each
      obtain ⟨this, others⟩ := List.forall_mem_cons.mp known
      rw [encodeFields]
      exact (first field.type this).bind fun chunk => ih rest others (chunk :: chunks)

/-- The types of the parts of a record are known. -/
theorem Closed.fields (closed : registry.Closed) {name : String} {fields : List Field}
    (found : registry.descriptor? name = some (.record fields)) :
    ∀ field ∈ fields, registry.Knows field.type := by
  intro field member dependency mentioned
  exact closed.mentions found dependency (List.mem_filterMap.mpr ⟨field, member, mentioned⟩)

theorem sparesEncoding_of_parts (closed : registry.Closed) {value : Value}
    (each : ∀ part ∈ value.parts, registry.SparesEncoding part) : registry.SparesEncoding value := by
  intro type known
  -- the induction is on the type for the nullable layers, under which the value stays the same
  induction type with
  | unit =>
    unfold encodeValue
    cases value with
    | unit => exact .ok _
    | _ => exact .error not_false
  | scalar kind =>
    unfold encodeValue
    cases value with
    | scalar scalar =>
      simp only [Ty.encodeLayers]
      split
      · exact spares_format _
      · exact .error not_false
    | _ => exact .error not_false
  | list element _ =>
    unfold encodeValue
    have known : registry.Knows element := known
    cases value with
    | list items =>
      exact (spares_format _).bind fun _ => (spares_encodeItems each known []).bind fun _ => .ok _
    | _ => exact .error not_false
  | nullable inner ih =>
    cases absent : value.isNull with
    | true =>
      cases value with
      | null =>
        rw [encodeValue_null_nullable]
        exact .ok _
      | _ => cases absent
    | false =>
      rw [encodeValue_nullable absent]
      exact (ih known).bind fun _ => .ok _
  | named name =>
    obtain ⟨descriptor, found⟩ := known name rfl
    unfold encodeValue
    simp only [Ty.encodeLayers, found]
    cases descriptor with
    | enumeration repr discriminants =>
      cases value with
      | enumeration actual discriminant =>
        simp only
        split
        · exact spares_discriminant _ _ _ _
        · exact .error not_false
      | _ => exact .error not_false
    | record fields =>
      cases value with
      | record actual values =>
        simp only
        split
        · split
          · exact (spares_encodeFields each (closed.fields found) []).bind fun _ => .ok _
          · exact .error not_false
        · exact .error not_false
      | _ => exact .error not_false
    | reference category => exact spares_reference _ _ _
    | scope =>
      cases value with
      | null => exact .ok _
      | scope named =>
        simp only
        split
        · exact .ok _
        · exact .error not_false
      | _ => exact .error not_false
    | interface implementations =>
      cases value with
      | null => exact .ok _
      | object concrete payload =>
        simp only
        split
        · exact .error not_false
        next index listed =>
          obtain ⟨inside, here, _⟩ := List.findIdx?_eq_some_iff_getElem.mp listed
          have member : concrete ∈ implementations := eq_of_beq here ▸ List.getElem_mem inside
          have declared : registry.Knows (.named concrete) := by
            rintro _ ⟨⟩
            exact closed.mentions found concrete member
          exact (each payload (List.mem_singleton_self _) _ declared).bind fun _ => .ok _
      | _ => exact .error not_false

/-- No value is written at a type that is not declared. -/
theorem spares_encode (closed : registry.Closed) {type : Ty} (known : registry.Knows type) (value : Value) :
    Spares EncodeError.IsUnknownType (registry.encode type value) := by
  suffices all : registry.SparesEncoding value from all type known
  induction value using Value.induct with
  | step value ih => exact sparesEncoding_of_parts closed ih

/-! ## Reading -/

/-- Plain data mentions no types. -/
theorem spares_lift {α : Type} (decoder : Decoder FormatError α) :
    Decoder.Spares DecodeError.IsUnknownType (liftM decoder : Decoder DecodeError α) :=
  .mapError fun _ => not_false

theorem spares_decodeEntity (tag : UInt8) :
    Decoder.Spares DecodeError.IsUnknownType (EntityRef.decode tag) := by
  unfold EntityRef.decode
  split
  · exact (spares_lift _).bind fun _ => .pure _
  · exact (spares_lift _).bind fun _ => (spares_lift _).bind fun _ => .pure _
  · exact (spares_lift _).bind fun _ => (spares_lift _).bind fun _ => (spares_lift _).bind fun _ => .pure _
  · exact .throw not_false

theorem spares_decodeReference (resolver : Resolver) (scope : ScopeId) (type : String)
    (category : RefCategory) :
    Decoder.Spares DecodeError.IsUnknownType (category.decode resolver scope type) := by
  cases category with
  | session | spawned | worldObject =>
    refine (spares_lift _).bind fun id? => ?_
    cases id? <;> exact .pure _
  | definition => exact (spares_lift _).bind fun _ => .pure _
  | thing =>
    refine (spares_lift _).bind fun tag => ?_
    by_cases absent : tag = 0xff
    · simp only [absent, if_true]
      exact .pure _
    · simp only [absent, if_false]
      refine (spares_decodeEntity tag).bind fun reference? => ?_
      cases reference? <;> exact .pure _

/-- Discriminants are read in integer kinds only. -/
theorem spares_decodeInt {kind : ScalarKind} (integer : kind.isInteger = true) :
    Decoder.Spares DecodeError.IsUnknownType kind.decodeInt := by
  cases kind with
  | bool | f32 | f64 | string | bytes => cases integer
  | _ => exact (spares_lift _).bind fun _ => .pure _

variable {resolver : Resolver} {scope : ScopeId}

/-- A reader never comes to a type that is not declared if it starts at one that is. -/
def SparesDecoding (registry : Registry) (read : ValueDecoder) : Prop :=
  ∀ type, registry.Knows type → Decoder.Spares DecodeError.IsUnknownType (read type)

theorem spares_decodePlain (closed : registry.Closed) {parts : ValueDecoder}
    (each : registry.SparesDecoding parts) {name : String} {descriptor : Descriptor}
    (found : registry.descriptor? name = some descriptor)
    (plain : ∀ others, descriptor ≠ .interface others) :
    Decoder.Spares DecodeError.IsUnknownType (decodePlain resolver scope parts name descriptor) := by
  cases descriptor with
  | enumeration repr discriminants =>
    refine (spares_decodeInt (closed.holds found).1).bind fun discriminant => ?_
    split
    · exact .pure _
    · exact .throw not_false
  | record fields =>
    refine Decoder.Spares.bind (.foldlM (fun field member values => ?_) []) fun _ => .pure _
    exact (each field.type (closed.fields found field member)).bind fun _ => .pure _
  | reference category => exact spares_decodeReference resolver scope name category
  | interface others => exact absurd rfl (plain others)
  | scope =>
    refine (spares_lift _).bind fun raw => ?_
    by_cases absent : raw = Int32.minValue
    · simp only [absent, if_true]
      exact .pure _
    · simp only [absent, if_false]
      split
      · exact .pure _
      · exact .throw not_false

theorem spares_decodeNamed (closed : registry.Closed) {parts deeper : ValueDecoder}
    (each : registry.SparesDecoding parts) (behind : registry.SparesDecoding deeper) {name : String}
    (declared : registry.Declares name) :
    Decoder.Spares DecodeError.IsUnknownType
      (registry.decodeNamed resolver scope parts deeper name) := by
  obtain ⟨descriptor, found⟩ := declared
  unfold decodeNamed
  rw [found]
  cases descriptor with
  | interface implementations =>
    refine (spares_lift _).bind fun index => ?_
    by_cases absent : index = 0xffff
    · simp only [absent, if_true]
      exact .pure _
    · simp only [absent, if_false]
      cases listed : implementations[index.toNat]? with
      | none => exact .throw not_false
      | some concrete =>
        obtain ⟨descriptor, there, plain⟩ := closed.concrete found (List.mem_of_getElem? listed)
        simp only [there]
        exact (spares_decodePlain closed behind there plain).bind fun _ => .pure _
  | _ => exact spares_decodePlain closed each found nofun

theorem spares_decodeLevel (closed : registry.Closed) {below deeper : ValueDecoder}
    (each : registry.SparesDecoding below) (behind : registry.SparesDecoding deeper) :
    registry.SparesDecoding (registry.decodeLevel resolver scope below deeper) := by
  intro type known
  cases type with
  | unit => exact .pure _
  | scalar kind => exact (spares_lift _).bind fun _ => .pure _
  | list element =>
    exact (spares_lift _).bind fun count => (Decoder.Spares.replicate (each element known) count).bind
      fun _ => .pure _
  | nullable inner =>
    refine (spares_lift _).bind fun absent => ?_
    cases absent with
    | true => exact .pure _
    | false =>
      refine (spares_lift _).bind fun present => ?_
      cases present with
      | true => exact each inner known
      | false => exact .pure _
  | named name => exact spares_decodeNamed closed each behind (known name rfl)

theorem spares_decodeWithin (closed : registry.Closed) :
    ∀ levels, registry.SparesDecoding (registry.decodeWithin resolver scope levels)
  | 0 => fun _ _ => .throw not_false
  | 1 => spares_decodeLevel closed (fun _ _ => .throw not_false) fun _ _ => .throw not_false
  -- what stands behind an interface is read with two levels less
  | levels + 2 =>
    spares_decodeLevel closed (spares_decodeWithin closed (levels + 1)) (spares_decodeWithin closed levels)

/-- No bytes are read at a type that is not declared. -/
theorem spares_decode (closed : registry.Closed) {type : Ty} (known : registry.Knows type)
    (resolver : Resolver) (context : WireContext) :
    Decoder.Spares DecodeError.IsUnknownType (registry.decode resolver context type) :=
  spares_decodeWithin closed _ type known

/-! ## Discriminants and implementations -/

/-- What an integer kind holds can be written in it. -/
theorem exists_encode_of_holds {kind : ScalarKind} (integer : kind.isInteger = true) {n : Int64}
    (held : kind.holds n = true) : ∃ scalar bytes, kind.ofInt? n = some scalar ∧
      scalar.encodeValue = .ok bytes := by
  unfold ScalarKind.ofInt?
  rw [if_pos held]
  cases kind with
  | bool | f32 | f64 | string | bytes => cases integer
  | _ => exact ⟨_, _, rfl, rfl⟩

/-- Every declared discriminant can be written, in its representation. -/
theorem Closed.exists_encode_discriminant (closed : registry.Closed) {name : String} {repr : ScalarKind}
    {discriminants : List Int64}
    (found : registry.descriptor? name = some (.enumeration repr discriminants)) {discriminant : Int64}
    (member : discriminant ∈ discriminants) :
    ∃ scalar bytes, repr.ofInt? discriminant = some scalar ∧ scalar.encodeValue = .ok bytes ∧
      registry.encode (.named name) (.enumeration name discriminant) = .ok bytes := by
  obtain ⟨integer, holds⟩ := closed.holds found
  obtain ⟨scalar, bytes, fits, written⟩ := exists_encode_of_holds integer (holds discriminant member)
  refine ⟨scalar, bytes, fits, written, ?_⟩
  unfold encode encodeValue
  simp only [Ty.encodeLayers, found, if_true, encodeDiscriminant, List.contains_iff_mem.mpr member, fits,
    written]

/-- Behind the index of an implementation a reader reads a value of this type. -/
theorem decodeWithin_object (sound : registry.Sound) {name concrete : String}
    {implementations : List String} {index : Nat} {descriptor : Descriptor}
    (declared : registry.descriptor? name = some (.interface implementations))
    (listed : implementations[index]? = some concrete)
    (there : registry.descriptor? concrete = some descriptor) (levels : Nat) (bytes : Bytes) :
    registry.decodeWithin resolver scope (levels + 1) (.named name)
        (Bytes.ofUInt16 (.ofNat index) ++ bytes) =
      (do
        let payload ← decodePlain resolver scope
          (registry.decodeWithin resolver scope (levels - 1)) concrete descriptor
        return if payload.isNull then Value.null else Value.object concrete payload) bytes := by
  obtain ⟨number, apart⟩ := sound.index_spec declared listed
  rw [decodeWithin_named, decodeNamed, declared]
  refine ((Decoder.reads_uint16 (.ofNat index)).lift.bind_apply _ bytes).trans ?_
  rw [if_neg apart, number, listed]
  simp only [there]

/-- What holds of the implementations of an interface: they stand in name order, so that halving finds
them, leave an index free, and are declared types other than interfaces. The index that is written for a
value of one is its place, where readers find the same type. -/
structure NumbersImplementations (registry : Registry) (name : String) (implementations : List String) :
    Prop where
  ascending : implementations.Pairwise fun a b => a < b
  search : ∀ concrete, searchByName id implementations concrete = implementations.idxOf? concrete
  few : implementations.length < 65535
  concrete : ∀ concrete ∈ implementations, ∃ descriptor,
    registry.descriptor? concrete = some descriptor ∧ ∀ others, descriptor ≠ .interface others
  object : ∀ {concrete : String} {payload : Value} {bytes : Bytes},
    registry.encode (.named name) (.object concrete payload) = .ok bytes →
      ∃ index body descriptor, bytes = .ofUInt16 index ++ body ∧ index ≠ 0xffff ∧
        implementations[index.toNat]? = some concrete ∧
        registry.descriptor? concrete = some descriptor ∧
        registry.encode (.named concrete) payload = .ok body ∧
        ∀ resolver scope levels rest,
          registry.decodeWithin resolver scope (levels + 1) (.named name) (bytes ++ rest) =
            (do
              let payload ← decodePlain resolver scope
                (registry.decodeWithin resolver scope (levels - 1)) concrete descriptor
              return if payload.isNull then Value.null else Value.object concrete payload) (body ++ rest)

theorem Closed.numbersImplementations (closed : registry.Closed) {name : String}
    {implementations : List String}
    (declared : registry.descriptor? name = some (.interface implementations)) :
    registry.NumbersImplementations name implementations where
  ascending := closed.ascending declared
  search := searchByName_eq_findIdx? id (closed.ascending declared)
  few := closed.few declared
  concrete _ member := closed.concrete declared member
  object {concrete payload bytes} written := by
    rcases encodeValue_interface_eq_ok declared written
      with ⟨impossible, -⟩ | ⟨_, _, index, body, same, listed, inner, rfl⟩
    · cases impossible
    · cases same
      obtain ⟨descriptor, there, -⟩ := closed.concrete declared (List.mem_of_getElem? listed)
      obtain ⟨number, apart⟩ := closed.index_spec declared listed
      refine ⟨.ofNat index, body, descriptor, rfl, apart, number.symm ▸ listed, there, inner, ?_⟩
      intro resolver scope levels rest
      rw [List.append_assoc]
      exact decodeWithin_object closed.toSound declared listed there levels (body ++ rest)

end Registry

end Lockstep
