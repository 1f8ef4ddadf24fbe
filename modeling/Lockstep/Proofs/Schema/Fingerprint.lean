import Lockstep.Proofs.Schema.Injective
import Lockstep.Proofs.Schema.Registry

/-! # What fingerprints tell apart

The bytes behind a fingerprint are read from the front: texts, fields and implementations are counted,
so two lists of declarations that are written alike go along with each other, declaration by
declaration. Only the discriminants of an enumeration are not counted, so what is declared behind it may
be written like further discriminants (`Swallows`). Beyond that, declarations that are written alike
differ in types that are spelled alike at most (`written_eq_iff`).
-/

namespace Lockstep

open Decoder

/-! ## Parts that are counted -/

/-- The length of a text fits into the word in front of it. -/
def IsCounted (text : String) : Prop := text.utf8ByteSize < UInt32.size

instance (text : String) : Decidable (IsCounted text) := inferInstanceAs (Decidable (_ < _))

namespace Digest

theorem separate_count {n m : Nat} {rest rest' : Bytes} (few : n < UInt32.size)
    (few' : m < UInt32.size)
    (same : Bytes.ofUInt32 (UInt32.ofNat n) ++ rest = Bytes.ofUInt32 (UInt32.ofNat m) ++ rest') :
    n = m ∧ rest = rest' := by
  rw [Bytes.ofUInt32, Bytes.ofUInt32, UInt32.toNat_ofNat_of_lt' few,
    UInt32.toNat_ofNat_of_lt' few'] at same
  exact (reads_nat few).separate (reads_nat few') same

theorem separate_text {text other : String} {rest rest' : Bytes} (counted : IsCounted text)
    (counted' : IsCounted other) (same : textBytes text ++ rest = textBytes other ++ rest') :
    text = other ∧ rest = rest' := by
  rw [textBytes, textBytes, List.append_assoc, List.append_assoc] at same
  obtain ⟨lengths, bodies⟩ := separate_count counted counted' same
  obtain ⟨texts, rests⟩ := List.append_inj bodies (by exact lengths)
  have read := congrArg Bytes.toString? texts
  rw [Bytes.toString?_ofString, Bytes.toString?_ofString] at read
  exact ⟨Option.some.inj read, rests⟩

/-- Lists of one length whose items are told apart, up to a key, are told apart up to the keys. -/
theorem separate_flatMap {ι κ : Type} {encode : ι → Bytes} {key : ι → κ} {items others : List ι}
    {rest rest' : Bytes}
    (each : ∀ item ∈ items, ∀ other ∈ others, ∀ {rest rest' : Bytes},
      encode item ++ rest = encode other ++ rest' → key item = key other ∧ rest = rest')
    (lengths : items.length = others.length)
    (same : items.flatMap encode ++ rest = others.flatMap encode ++ rest') :
    items.map key = others.map key ∧ rest = rest' := by
  induction items generalizing others with
  | nil =>
    obtain rfl := List.eq_nil_of_length_eq_zero lengths.symm
    exact ⟨rfl, same⟩
  | cons item items ih =>
    cases others with
    | nil => cases lengths
    | cons other others =>
      rw [List.flatMap_cons, List.flatMap_cons, List.append_assoc, List.append_assoc] at same
      obtain ⟨first, same⟩ := each item List.mem_cons_self other List.mem_cons_self same
      obtain ⟨keys, rests⟩ := ih
        (fun item member other member' =>
          each item (List.mem_cons_of_mem _ member) other (List.mem_cons_of_mem _ member'))
        (Nat.succ.inj lengths) same
      exact ⟨by rw [List.map_cons, List.map_cons, first, keys], rests⟩

/-- The bytes of discriminants, without their number. -/
def words (discriminants : List Int64) : Bytes :=
  discriminants.flatMap fun discriminant => Bytes.ofUInt64 discriminant.toUInt64

theorem words_cons (discriminant : Int64) (discriminants : List Int64) :
    words (discriminant :: discriminants) =
      Bytes.ofUInt64 discriminant.toUInt64 ++ words discriminants := rfl

theorem words_append (discriminants further : List Int64) :
    words (discriminants ++ further) = words discriminants ++ words further := List.flatMap_append

/-- Discriminants that are not counted are told apart up to further ones on either side. -/
theorem separate_words {discriminants others : List Int64} {rest rest' : Bytes}
    (same : words discriminants ++ rest = words others ++ rest') :
    ∃ further, (others = discriminants ++ further ∧ rest = words further ++ rest') ∨
      (discriminants = others ++ further ∧ rest' = words further ++ rest) := by
  induction discriminants generalizing others with
  | nil => exact ⟨others, .inl ⟨rfl, same⟩⟩
  | cons discriminant discriminants ih =>
    cases others with
    | nil => exact ⟨discriminant :: discriminants, .inr ⟨rfl, same.symm⟩⟩
    | cons other others =>
      rw [words_cons, words_cons, List.append_assoc, List.append_assoc] at same
      obtain ⟨first, behind⟩ := (reads_uint64 _).separate (reads_uint64 _) same
      obtain rfl : discriminant = other := Int64.toBitVec_inj.mp (congrArg UInt64.toBitVec first)
      obtain ⟨further, ⟨rfl, rests⟩ | ⟨rfl, rests⟩⟩ := ih behind
      · exact ⟨further, .inl ⟨rfl, rests⟩⟩
      · exact ⟨further, .inr ⟨rfl, rests⟩⟩

end Digest

/-! ## Descriptors -/

namespace ScalarKind

theorem name_injective {kind other : ScalarKind} (same : kind.name = other.name) : kind = other := by
  cases kind <;> cases other <;> first | rfl | exact absurd same (by decide)

theorem isCounted_name (kind : ScalarKind) : IsCounted kind.name := by
  cases kind <;> decide

end ScalarKind

namespace RefCategory

theorem name_injective {category other : RefCategory} (same : category.name = other.name) :
    category = other := by
  cases category <;> cases other <;> first | rfl | exact absurd same (by decide)

theorem isCounted_name (category : RefCategory) : IsCounted category.name := by
  cases category <;> decide

end RefCategory

namespace Descriptor

/-- A descriptor with a name in the place of each type, which is how the type is spelled. -/
def spelled : Descriptor → Descriptor
  | record fields => record (fields.map fun field => { field with type := .named field.type.display })
  | descriptor => descriptor

/-- All texts, fields and implementations of a descriptor can be counted. -/
def IsCounted : Descriptor → Prop
  | record fields => fields.length < UInt32.size ∧
      ∀ field ∈ fields, Lockstep.IsCounted field.name ∧ Lockstep.IsCounted field.type.display
  | interface implementations => implementations.length < UInt32.size ∧
      ∀ concrete ∈ implementations, Lockstep.IsCounted concrete
  | enumeration _ _ | reference _ | scope => True

theorem digestBytes_spelled (descriptor : Descriptor) :
    descriptor.spelled.digestBytes = descriptor.digestBytes := by
  cases descriptor with
  | record fields =>
    simp only [spelled, digestBytes, kind, List.length_map, List.flatMap_map, Ty.display]
  | _ => rfl

/-- What stands behind the kind of a descriptor in a digest. -/
def body : Descriptor → Bytes
  | enumeration repr discriminants => Digest.textBytes repr.name ++ Digest.words discriminants
  | record fields => .ofUInt32 (UInt32.ofNat fields.length) ++
      fields.flatMap fun field => Digest.textBytes field.name ++ Digest.textBytes field.type.display
  | reference category => Digest.textBytes category.name
  | interface implementations => .ofUInt32 (UInt32.ofNat implementations.length) ++
      implementations.flatMap Digest.textBytes
  | scope => []

theorem digestBytes_eq (descriptor : Descriptor) :
    descriptor.digestBytes = Digest.textBytes descriptor.kind ++ descriptor.body := by
  cases descriptor <;> rfl

theorem isCounted_kind (descriptor : Descriptor) : Lockstep.IsCounted descriptor.kind := by
  cases descriptor <;> simp only [kind] <;> decide

/-- The second of two enumerations has further discriminants, which are written like what comes behind
the first one. -/
def Absorbs (first second : Descriptor) (rest rest' : Bytes) : Prop :=
  ∃ repr discriminants further, first = .enumeration repr discriminants ∧
    second = .enumeration repr (discriminants ++ further) ∧ further ≠ [] ∧
    rest = Digest.words further ++ rest'

theorem separate_field {field other : Field} {rest rest' : Bytes}
    (counted : Lockstep.IsCounted field.name ∧ Lockstep.IsCounted field.type.display)
    (counted' : Lockstep.IsCounted other.name ∧ Lockstep.IsCounted other.type.display)
    (same : (Digest.textBytes field.name ++ Digest.textBytes field.type.display) ++ rest =
      (Digest.textBytes other.name ++ Digest.textBytes other.type.display) ++ rest') :
    ({ field with type := .named field.type.display } : Field) =
      { other with type := .named other.type.display } ∧ rest = rest' := by
  rw [List.append_assoc, List.append_assoc] at same
  obtain ⟨names, types⟩ := Digest.separate_text counted.1 counted'.1 same
  obtain ⟨texts, rests⟩ := Digest.separate_text counted.2 counted'.2 types
  exact ⟨by rw [names, texts], rests⟩

/-- Descriptors that are written alike, whatever follows, are spelled alike, unless one of two
enumerations has absorbed what follows the other. -/
theorem separate {first second : Descriptor} {rest rest' : Bytes} (counted : first.IsCounted)
    (counted' : second.IsCounted) (same : first.digestBytes ++ rest = second.digestBytes ++ rest') :
    (first.spelled = second.spelled ∧ rest = rest') ∨ first.Absorbs second rest rest' ∨
      second.Absorbs first rest' rest := by
  obtain ⟨kinds, bodies⟩ : first.kind = second.kind ∧ first.body ++ rest = second.body ++ rest' := by
    rw [digestBytes_eq, digestBytes_eq, List.append_assoc, List.append_assoc] at same
    exact Digest.separate_text first.isCounted_kind second.isCounted_kind same
  cases first with
  | enumeration repr discriminants =>
    cases second with
    | enumeration repr' discriminants' =>
      simp only [body, List.append_assoc] at bodies
      obtain ⟨names, words⟩ := Digest.separate_text repr.isCounted_name repr'.isCounted_name bodies
      obtain rfl := ScalarKind.name_injective names
      obtain ⟨further, ⟨rfl, rests⟩ | ⟨rfl, rests⟩⟩ := Digest.separate_words words
      · rcases further with _ | ⟨one, more⟩
        · exact .inl ⟨by rw [List.append_nil], rests⟩
        · exact .inr (.inl ⟨repr, discriminants, _, rfl, rfl, List.cons_ne_nil _ _, rests⟩)
      · rcases further with _ | ⟨one, more⟩
        · exact .inl ⟨by rw [List.append_nil], rests.symm⟩
        · exact .inr (.inr ⟨repr, discriminants', _, rfl, rfl, List.cons_ne_nil _ _, rests⟩)
    | _ => simp [kind] at kinds
  | record fields =>
    cases second with
    | record fields' =>
      simp only [body, List.append_assoc] at bodies
      obtain ⟨lengths, bodies⟩ := Digest.separate_count counted.1 counted'.1 bodies
      obtain ⟨fields, rests⟩ := Digest.separate_flatMap (fun field member field' member' rest rest' same =>
        separate_field (counted.2 field member) (counted'.2 field' member') same) lengths bodies
      exact .inl ⟨congrArg record fields, rests⟩
    | _ => simp [kind] at kinds
  | reference category =>
    cases second with
    | reference category' =>
      obtain ⟨names, rests⟩ :=
        Digest.separate_text category.isCounted_name category'.isCounted_name bodies
      obtain rfl := RefCategory.name_injective names
      exact .inl ⟨rfl, rests⟩
    | _ => simp [kind] at kinds
  | interface implementations =>
    cases second with
    | interface implementations' =>
      simp only [body, List.append_assoc] at bodies
      obtain ⟨lengths, bodies⟩ := Digest.separate_count counted.1 counted'.1 bodies
      obtain ⟨names, rests⟩ := Digest.separate_flatMap (fun name member name' member' rest rest' same =>
        Digest.separate_text (counted.2 name member) (counted'.2 name' member') same) lengths bodies
      rw [List.map_id', List.map_id'] at names
      exact .inl ⟨congrArg (fun names => (interface names).spelled) names, rests⟩
    | _ => simp [kind] at kinds
  | scope =>
    cases second with
    | scope => exact .inl ⟨rfl, bodies⟩
    | _ => simp [kind] at kinds

end Descriptor

/-! ## Declarations in a row -/

/-- Declared types in the order in which they enter a digest. -/
abbrev Entries := List (String × Descriptor)

namespace Entries

/-- The bytes of declared types. -/
def written (entries : Entries) : Bytes :=
  entries.flatMap fun entry => Digest.textBytes entry.1 ++ entry.2.digestBytes

/-- Declared types, with every type in them as it is spelled. -/
def spelled (entries : Entries) : Entries := entries.map fun entry => (entry.1, entry.2.spelled)

def IsCounted (entries : Entries) : Prop :=
  ∀ entry ∈ entries, Lockstep.IsCounted entry.1 ∧ entry.2.IsCounted

/-- Behind declarations that are spelled alike, an enumeration of the second list has further
discriminants, and these are written like what comes behind the enumeration in the first list. -/
def Swallows (first second : Entries) : Prop :=
  ∃ before before' name repr discriminants further after after',
    first = before ++ (name, .enumeration repr discriminants) :: after ∧
    second = before' ++ (name, .enumeration repr (discriminants ++ further)) :: after' ∧
    spelled before = spelled before' ∧ further ≠ [] ∧
    written after = Digest.words further ++ written after'

theorem written_append (first second : Entries) :
    written (first ++ second) = written first ++ written second := List.flatMap_append

theorem written_cons (entry : String × Descriptor) (entries : Entries) :
    written (entry :: entries) =
      Digest.textBytes entry.1 ++ (entry.2.digestBytes ++ written entries) := by
  rw [written, List.flatMap_cons, List.append_assoc]
  rfl

theorem written_spelled (entries : Entries) : written (spelled entries) = written entries := by
  simp only [written, spelled, List.flatMap_map, Descriptor.digestBytes_spelled]

theorem written_cons_ne_nil (entry : String × Descriptor) (entries : Entries) :
    written (entry :: entries) ≠ [] := by
  intro empty
  have length := congrArg List.length empty
  rw [written_cons, Digest.textBytes, Bytes.ofUInt32] at length
  simp at length

theorem Swallows.written_eq {first second : Entries} (swallows : Swallows first second) :
    written first = written second := by
  obtain ⟨before, before', name, repr, discriminants, further, after, after', rfl, rfl, alike, -,
    absorbed⟩ := swallows
  have front : written before = written before' := by
    rw [← written_spelled before, alike, written_spelled]
  rw [written_append, written_append, written_cons, written_cons, front, Descriptor.digestBytes_eq,
    Descriptor.digestBytes_eq, Descriptor.body, Descriptor.body, Digest.words_append, absorbed]
  simp only [Descriptor.kind, List.append_assoc]

/-- An enumeration that absorbs all that follows its counterpart swallows it. -/
theorem swallows_of_absorbs {first second : Entries} {entry other : String × Descriptor}
    (names : entry.1 = other.1)
    (absorbs : entry.2.Absorbs other.2 (written first) (written second)) :
    Swallows (entry :: first) (other :: second) := by
  obtain ⟨repr, discriminants, further, plain, extended, some, absorbed⟩ := absorbs
  refine ⟨[], [], entry.1, repr, discriminants, further, first, second, ?_, ?_, rfl, some, absorbed⟩
  · rw [← plain, List.nil_append]
  · rw [← extended, names, List.nil_append]

/-- What is swallowed behind two declarations stays swallowed with them in front. -/
theorem Swallows.cons {first second : Entries} {entry other : String × Descriptor}
    (swallows : Swallows first second) (names : entry.1 = other.1)
    (alike : entry.2.spelled = other.2.spelled) : Swallows (entry :: first) (other :: second) := by
  obtain ⟨before, before', name, repr, discriminants, further, after, after', rfl, rfl, same, some,
    absorbed⟩ := swallows
  refine ⟨entry :: before, other :: before', name, repr, discriminants, further, after, after', rfl,
    rfl, ?_, some, absorbed⟩
  rw [spelled, spelled, List.map_cons, List.map_cons, names, alike]
  exact congrArg _ same

/-- Declared types are written alike exactly if they are spelled alike, or an enumeration among them has
swallowed what comes behind it on the other side. -/
theorem written_eq_iff {first second : Entries} (counted : first.IsCounted)
    (counted' : second.IsCounted) :
    written first = written second ↔
      spelled first = spelled second ∨ Swallows first second ∨ Swallows second first := by
  constructor
  · intro same
    induction first generalizing second with
    | nil =>
      cases second with
      | nil => exact .inl rfl
      | cons entry second => exact absurd same.symm (written_cons_ne_nil entry second)
    | cons entry first ih =>
      cases second with
      | nil => exact absurd same (written_cons_ne_nil entry first)
      | cons other second =>
        obtain ⟨here, rest⟩ := List.forall_mem_cons.mp counted
        obtain ⟨here', rest'⟩ := List.forall_mem_cons.mp counted'
        rw [written_cons, written_cons] at same
        obtain ⟨names, bodies⟩ := Digest.separate_text here.1 here'.1 same
        rcases Descriptor.separate here.2 here'.2 bodies with ⟨alike, behind⟩ | absorbs | absorbs
        · rcases ih rest rest' behind with spelling | swallows | swallows
          · refine .inl ?_
            rw [spelled, spelled, List.map_cons, List.map_cons, names, alike]
            exact congrArg _ spelling
          · exact .inr (.inl (swallows.cons names alike))
          · exact .inr (.inr (swallows.cons names.symm alike.symm))
        · exact .inr (.inl (swallows_of_absorbs names absorbs))
        · exact .inr (.inr (swallows_of_absorbs names.symm absorbs))
  · rintro (spelling | swallows | swallows)
    · rw [← written_spelled first, spelling, written_spelled]
    · exact swallows.written_eq
    · exact swallows.written_eq.symm

end Entries

/-! ## Types as they are spelled -/

namespace Ty

/-- A text that is spelled like a list. -/
def isBracketed (text : String) : Bool :=
  text.toList.head? == some '[' && text.toList.getLast? == some ']'

/-- A text that is spelled like a nullable type. -/
def isQuestion (text : String) : Bool := text.toList.getLast? == some '?'

/-- A name that is not spelled like a type of another form. -/
def isTellingName (name : String) : Bool :=
  name != unit.display && (ScalarKind.ofName? name).isNone && !isBracketed name && !isQuestion name

/-- The name that a type mentions, if it does, is not spelled like another type. -/
def IsTelling (type : Ty) : Prop := ∀ name, type.name? = some name → isTellingName name = true

theorem toList_display_list (element : Ty) :
    (list element).display.toList = ('[' :: element.display.toList) ++ [']'] := by
  simp [display]

theorem isBracketed_list (element : Ty) : isBracketed (list element).display = true := by
  rw [isBracketed, toList_display_list, List.getLast?_concat]
  rfl

theorem isQuestion_nullable (inner : Ty) : isQuestion (nullable inner).display = true := by
  simp [isQuestion, display]

theorem isBracketed_of_ne {type : Ty} (telling : type.IsTelling) (other : ∀ element, type ≠ list element) :
    isBracketed type.display = false := by
  cases type with
  | unit => decide
  | scalar kind => cases kind <;> decide
  | named name =>
    have name := telling name rfl
    simp only [isTellingName, Bool.and_eq_true, Bool.not_eq_true'] at name
    exact name.1.2
  | list element => exact absurd rfl (other element)
  | nullable inner => simp [isBracketed, display]

theorem isQuestion_of_ne {type : Ty} (telling : type.IsTelling) (other : ∀ inner, type ≠ nullable inner) :
    isQuestion type.display = false := by
  cases type with
  | unit => decide
  | scalar kind => cases kind <;> decide
  | named name =>
    have name := telling name rfl
    simp only [isTellingName, Bool.and_eq_true, Bool.not_eq_true'] at name
    exact name.2
  | list element =>
    rw [isQuestion, toList_display_list, List.getLast?_concat]
    rfl
  | nullable inner => exact absurd rfl (other inner)

theorem ne_unit {name : String} (telling : isTellingName name = true) : name ≠ unit.display := by
  simp only [isTellingName, Bool.and_eq_true, bne_iff_ne] at telling
  exact telling.1.1.1

theorem ne_scalar {name : String} (telling : isTellingName name = true) (kind : ScalarKind) :
    name ≠ (scalar kind).display := by
  rintro rfl
  cases kind <;> exact absurd telling (by decide)

theorem display_ne_list {type : Ty} (telling : type.IsTelling) (other : ∀ element, type ≠ list element)
    (element : Ty) : type.display ≠ (list element).display := by
  intro same
  have plain := isBracketed_of_ne telling other
  rw [same, isBracketed_list] at plain
  cases plain

theorem display_ne_nullable {type : Ty} (telling : type.IsTelling)
    (other : ∀ inner, type ≠ nullable inner) (inner : Ty) :
    type.display ≠ (nullable inner).display := by
  intro same
  have plain := isQuestion_of_ne telling other
  rw [same, isQuestion_nullable] at plain
  cases plain

/-- Types that mention no name spelled like another type are told apart by how they are spelled. -/
theorem eq_of_display_eq {type other : Ty} (telling : type.IsTelling) (telling' : other.IsTelling)
    (same : type.display = other.display) : type = other := by
  induction type generalizing other with
  | list element ih =>
    cases other with
    | list element' =>
      have elements : element.display = element'.display := by simpa [display] using same
      have mentions : element'.IsTelling := telling'
      rw [ih telling mentions elements]
    | _ => exact absurd same.symm (display_ne_list telling' nofun element)
  | nullable inner ih =>
    cases other with
    | nullable inner' =>
      have inners : inner.display = inner'.display := by simpa [display] using same
      have mentions : inner'.IsTelling := telling'
      rw [ih telling mentions inners]
    | _ => exact absurd same.symm (display_ne_nullable telling' nofun inner)
  | unit =>
    cases other with
    | unit => rfl
    | scalar kind => cases kind <;> exact absurd same (by decide)
    | named name => exact absurd same.symm (ne_unit (telling' name rfl))
    | list element => exact absurd same (display_ne_list telling nofun element)
    | nullable inner => exact absurd same (display_ne_nullable telling nofun inner)
  | scalar kind =>
    cases other with
    | unit => cases kind <;> exact absurd same (by decide)
    | scalar kind' => rw [ScalarKind.name_injective same]
    | named name => exact absurd same.symm (ne_scalar (telling' name rfl) kind)
    | list element => exact absurd same (display_ne_list telling nofun element)
    | nullable inner => exact absurd same (display_ne_nullable telling nofun inner)
  | named name =>
    cases other with
    | unit => exact absurd same (ne_unit (telling name rfl))
    | scalar kind => exact absurd same (ne_scalar (telling name rfl) kind)
    | named name' => exact congrArg named same
    | list element => exact absurd same (display_ne_list telling nofun element)
    | nullable inner => exact absurd same (display_ne_nullable telling nofun inner)

end Ty

/-! ## Registries -/

theorem eq_of_map_eq {ι κ : Type} {f : ι → κ} {items others : List ι}
    (apart : ∀ item ∈ items, ∀ other ∈ others, f item = f other → item = other)
    (same : items.map f = others.map f) : items = others := by
  induction items generalizing others with
  | nil => exact (List.map_eq_nil_iff.mp same.symm).symm
  | cons item items ih =>
    cases others with
    | nil => cases same
    | cons other others =>
      rw [List.map_cons, List.map_cons, List.cons.injEq] at same
      rw [apart item List.mem_cons_self other List.mem_cons_self same.1, ih (fun item member other member' =>
        apart item (List.mem_cons_of_mem _ member) other (List.mem_cons_of_mem _ member')) same.2]

/-- Every type in a descriptor is told apart from others by how it is spelled. -/
def Descriptor.IsTelling (descriptor : Descriptor) : Prop :=
  ∀ fields, descriptor = .record fields → ∀ field ∈ fields, field.type.IsTelling

theorem Descriptor.eq_of_spelled_eq {first second : Descriptor} (telling : first.IsTelling)
    (telling' : second.IsTelling) (same : first.spelled = second.spelled) : first = second := by
  cases first with
  | record fields =>
    cases second with
    | record fields' =>
      refine congrArg record (eq_of_map_eq (fun field member field' member' alike => ?_)
        (Descriptor.record.inj same))
      have types := Ty.eq_of_display_eq (telling fields rfl field member)
        (telling' fields' rfl field' member') (Ty.named.inj (congrArg Field.type alike))
      have names := congrArg Field.name alike
      cases field
      cases field'
      exact congrArg₂ Field.mk names types
    | _ => cases same
  | _ =>
    cases second with
    | record fields' => cases same
    | _ => exact same

namespace Registry

variable {registry : Registry} {declarations : List Declaration}

/-- The names that are declared, the fields of each record, and how these are called and spelled can be
counted. -/
def IsCounted (registry : Registry) : Prop :=
  ∀ entry ∈ registry.types.entries, Lockstep.IsCounted entry.1 ∧
    ∀ fields, entry.2 = .record fields → (Descriptor.record fields).IsCounted

/-- The fields of a record mention declared types only. -/
theorem declared_of_build (built : build declarations = .ok registry) {name mentioned : String}
    {fields : List Field} (found : registry.descriptor? name = some (.record fields)) {field : Field}
    (member : field ∈ fields) (mentions : field.type.name? = some mentioned) :
    ∃ descriptor, registry.descriptor? mentioned = some descriptor := by
  obtain ⟨declared, tidy, _, dependencies, types⟩ := build_eq_ok built
  have lookup (name : String) : registry.descriptor? name = declared.lookup name := by
    rw [descriptor?, types, SortedMap.get?_ofList tidy.distinct]
  rw [lookup] at found
  obtain ⟨before, behind, same, _⟩ := List.lookup_eq_some_iff.mp found
  have checked := forM_eq_ok.mp dependencies (name, .record fields) (by rw [same]; simp)
  simp only at checked
  split at checked
  next => cases checked
  next none =>
    have depends : mentioned ∈ (Descriptor.record fields).dependencies :=
      List.mem_filterMap.mpr ⟨field, member, mentions⟩
    have known := List.find?_eq_none.mp none mentioned depends
    rw [lookup]
    exact Option.isSome_iff_exists.mp (by simpa using known)

/-- Of a registry that is built, implementations can be counted if names can. -/
theorem IsCounted.entries (counted : registry.IsCounted) (built : build declarations = .ok registry) :
    Entries.IsCounted registry.types.entries := by
  have sound := sound_of_build built
  intro entry member
  obtain ⟨name, descriptor⟩ := entry
  refine ⟨(counted _ member).1, ?_⟩
  cases descriptor with
  | record fields => exact (counted _ member).2 fields rfl
  | interface implementations =>
    have found : registry.descriptor? name = some (.interface implementations) :=
      SortedMap.mem_entries_iff.mp member
    refine ⟨Nat.lt_trans (sound.few found) (by decide), fun concrete listed => ?_⟩
    obtain ⟨other, there, _⟩ := sound.concrete found listed
    exact (counted (concrete, other) (SortedMap.mem_entries_iff.mpr there)).1
  | enumeration _ _ | reference _ | scope => trivial

theorem digestBytes_eq_written (registry : Registry) :
    registry.digestBytes = Entries.written registry.types.entries := rfl

/-- No name that is declared is spelled like another type. -/
def IsTelling (registry : Registry) : Prop :=
  ∀ entry ∈ registry.types.entries, Ty.isTellingName entry.1 = true

/-- In a registry that is built, all types are told apart by how they are spelled if the names are. -/
theorem IsTelling.descriptors (telling : registry.IsTelling)
    (built : build declarations = .ok registry) :
    ∀ entry ∈ registry.types.entries, entry.2.IsTelling := by
  rintro ⟨name, _⟩ member fields rfl field listed mentioned mentions
  have found : registry.descriptor? name = some (.record fields) := SortedMap.mem_entries_iff.mp member
  obtain ⟨descriptor, declared⟩ := declared_of_build built found listed mentions
  exact telling (mentioned, descriptor) (SortedMap.mem_entries_iff.mpr declared)

/-- Enumerations of one name have as many discriminants in one registry as in the other. -/
def CountsAlike (registry other : Registry) : Prop :=
  ∀ name repr repr' discriminants discriminants',
    registry.descriptor? name = some (.enumeration repr discriminants) →
    other.descriptor? name = some (.enumeration repr' discriminants') →
    discriminants.length = discriminants'.length

theorem CountsAlike.symm {other : Registry} (alike : registry.CountsAlike other) :
    other.CountsAlike registry :=
  fun name _ _ _ _ found found' => (alike name _ _ _ _ found' found).symm

theorem CountsAlike.not_swallows {other : Registry} (alike : registry.CountsAlike other) :
    ¬Entries.Swallows registry.types.entries other.types.entries := by
  rintro ⟨before, before', name, repr, discriminants, further, after, after', first, second, -, more, -⟩
  have found : registry.descriptor? name = some (.enumeration repr discriminants) := by
    refine SortedMap.mem_entries_iff.mp ?_
    rw [first]
    exact List.mem_append_right _ List.mem_cons_self
  have found' : other.descriptor? name = some (.enumeration repr (discriminants ++ further)) := by
    refine SortedMap.mem_entries_iff.mp ?_
    rw [second]
    exact List.mem_append_right _ List.mem_cons_self
  have lengths := alike name _ _ _ _ found found'
  rw [List.length_append] at lengths
  exact more (List.eq_nil_of_length_eq_zero (by omega))

theorem eq_of_spelled_eq {declarations' : List Declaration} {other : Registry}
    (built : build declarations = .ok registry) (built' : build declarations' = .ok other)
    (telling : registry.IsTelling) (telling' : other.IsTelling)
    (same : Entries.spelled registry.types.entries = Entries.spelled other.types.entries) :
    registry = other := by
  have entries : registry.types.entries = other.types.entries := by
    refine eq_of_map_eq (fun entry member entry' member' alike => ?_) same
    rw [Prod.mk.injEq] at alike
    exact Prod.ext alike.1 (Descriptor.eq_of_spelled_eq (telling.descriptors built entry member)
      (telling'.descriptors built' entry' member') alike.2)
  cases registry with | mk types =>
  cases other with | mk types' =>
  cases types
  cases types'
  cases entries
  rfl

/-- Whatever can be counted, registries that are written alike are the same up to types that are spelled
alike, or an enumeration of one has further discriminants in the place of declarations of the other; and
these are written alike. So if no declared name is spelled like another type, and enumerations of one
name have equally many discriminants, registries that are written alike are the same. -/
theorem digestBytes_eq_iff {declarations' : List Declaration} {other : Registry}
    (built : build declarations = .ok registry) (built' : build declarations' = .ok other)
    (counted : registry.IsCounted) (counted' : other.IsCounted) :
    (registry.digestBytes = other.digestBytes ↔
      Entries.spelled registry.types.entries = Entries.spelled other.types.entries ∨
        Entries.Swallows registry.types.entries other.types.entries ∨
        Entries.Swallows other.types.entries registry.types.entries) ∧
    (registry.IsTelling → other.IsTelling → registry.CountsAlike other →
      (registry.digestBytes = other.digestBytes ↔ registry = other)) := by
  have written := Entries.written_eq_iff (counted.entries built) (counted'.entries built')
  rw [← digestBytes_eq_written, ← digestBytes_eq_written] at written
  refine ⟨written, fun telling telling' alike => ⟨fun same => ?_, fun same => congrArg _ same⟩⟩
  rcases written.mp same with spelling | swallows | swallows
  · exact eq_of_spelled_eq built built' telling telling' spelling
  · exact absurd swallows alike.not_swallows
  · exact absurd swallows alike.symm.not_swallows

end Registry

/-- A record with a mood, which is one of these numbers. -/
def moodDeclarations (discriminants : List Int64) : List Declaration :=
  [.record "Worker" [⟨"mood", .nullable (.named "Mood")⟩], .enumeration "Mood" .u8 discriminants]

def calmRegistry : Registry := (Registry.build (moodDeclarations [1, 2])).toOption.get (by decide +kernel)

def wildRegistry : Registry := (Registry.build (moodDeclarations [1, 3])).toOption.get (by decide +kernel)

theorem entries_calmRegistry : calmRegistry.types.entries =
    [("Mood", .enumeration .u8 [1, 2]), ("Scope", .scope),
      ("Worker", .record [⟨"mood", .nullable (.named "Mood")⟩])] := by rfl

theorem entries_wildRegistry : wildRegistry.types.entries =
    [("Mood", .enumeration .u8 [1, 3]), ("Scope", .scope),
      ("Worker", .record [⟨"mood", .nullable (.named "Mood")⟩])] := by rfl

/-- A discriminant more or less is not what tells these registries apart, but their bytes differ. -/
theorem calm_is_not_written_like_wild :
    Registry.build (moodDeclarations [1, 2]) = .ok calmRegistry ∧
      Registry.build (moodDeclarations [1, 3]) = .ok wildRegistry ∧
      calmRegistry.IsCounted ∧ wildRegistry.IsCounted ∧ calmRegistry.CountsAlike wildRegistry ∧
      calmRegistry.digestBytes ≠ wildRegistry.digestBytes := by
  have built : Registry.build (moodDeclarations [1, 2]) = .ok calmRegistry := by rfl
  have built' : Registry.build (moodDeclarations [1, 3]) = .ok wildRegistry := by rfl
  have counted : calmRegistry.IsCounted := by
    rw [Registry.IsCounted, entries_calmRegistry]
    simp [Descriptor.IsCounted]
    decide
  have counted' : wildRegistry.IsCounted := by
    rw [Registry.IsCounted, entries_wildRegistry]
    simp [Descriptor.IsCounted]
    decide
  have telling : calmRegistry.IsTelling := by
    rw [Registry.IsTelling, entries_calmRegistry]
    decide
  have telling' : wildRegistry.IsTelling := by
    rw [Registry.IsTelling, entries_wildRegistry]
    decide
  have alike : calmRegistry.CountsAlike wildRegistry := by
    intro name repr repr' discriminants discriminants' found found'
    have member := SortedMap.mem_entries_iff.mpr found
    have member' := SortedMap.mem_entries_iff.mpr found'
    rw [entries_calmRegistry] at member
    rw [entries_wildRegistry] at member'
    simp only [List.mem_cons, Prod.mk.injEq, Descriptor.enumeration.injEq, reduceCtorEq, and_false,
      List.not_mem_nil, or_false] at member member'
    rw [member.2.2, member'.2.2]
    rfl
  have differ : calmRegistry ≠ wildRegistry := by
    intro same
    have entries := congrArg (fun registry => registry.types.entries) same
    rw [entries_calmRegistry, entries_wildRegistry] at entries
    exact absurd entries (by decide)
  have written := Registry.digestBytes_eq_iff built built' counted counted'
  exact ⟨built, built', counted, counted', alike, fun same =>
    differ ((written.2 telling telling' alike).mp same)⟩

/-- An enumeration without discriminants, and behind it a record without fields. -/
def borderDeclarations : List Declaration := [.enumeration "Axis" .i64 [], .record "Border" []]

/-- An enumeration whose discriminants are written like the record. -/
def axisDeclarations : List Declaration :=
  [.enumeration "Axis" .i64 [0x64726f4200000006, 0x6572000000067265, 0x0000000064726f63]]

def borderRegistry : Registry := (Registry.build borderDeclarations).toOption.get (by decide +kernel)

def axisRegistry : Registry := (Registry.build axisDeclarations).toOption.get (by decide +kernel)

/-- Two registries of which only one knows the record are written alike. -/
theorem border_is_written_like_axis :
    Registry.build borderDeclarations = .ok borderRegistry ∧
      Registry.build axisDeclarations = .ok axisRegistry ∧
      borderRegistry.descriptor? "Border" = some (.record []) ∧
      axisRegistry.descriptor? "Border" = none ∧
      borderRegistry.digestBytes = axisRegistry.digestBytes := by
  refine ⟨by rfl, by rfl, by rfl, by rfl, ?_⟩
  decide +kernel

end Lockstep
