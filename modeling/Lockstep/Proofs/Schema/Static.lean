import Lockstep.Proofs.Schema.Limits
import Lockstep.Schema.Typed

/-! # Data of static type on the wire

A datum of static type travels as a value, and a value has one way only to be missing. So an option that
is present and yet holds nothing comes back as one that is missing, and no other datum changes on the way
(`decodeStatic_encodeStatic`).
-/

namespace Lockstep

open Decoder

namespace StaticType

/-! ## Data -/

/-- The scalars of a datum. -/
def scalars : (static : StaticType) → static.Carrier → List Scalar
  | scalar kind, v => [.ofCarrier kind v]
  | scope, _ => []
  | list element, v => List.flatMap element.scalars v
  | option inner, v =>
    match v with
    | some v => inner.scalars v
    | none => []

/-- The scopes that a datum names. -/
def scopes : (static : StaticType) → static.Carrier → List ScopeId
  | scalar _, _ => []
  | scope, v => [v]
  | list element, v => List.flatMap element.scopes v
  | option inner, v =>
    match v with
    | some v => inner.scopes v
    | none => []

/-- How many levels a datum nests: the items of a list and what a present option holds lie one deeper. -/
def depth : (static : StaticType) → static.Carrier → Nat
  | scalar _, _ => 0
  | scope, _ => 0
  | list element, v => List.foldr (fun item deepest => max (element.depth item + 1) deepest) 0 v
  | option inner, v =>
    match v with
    | some v => inner.depth v + 1
    | none => 0

/-- A datum is nothing: an option that is missing, or that is present and holds nothing. -/
def isNothing : (static : StaticType) → static.Carrier → Bool
  | scalar _, _ => false
  | scope, _ => false
  | list _, _ => false
  | option inner, v =>
    match v with
    | some v => inner.isNothing v
    | none => true

/-- Whether no option in a datum is present and holds nothing. -/
def isDefinite : (static : StaticType) → static.Carrier → Bool
  | scalar _, _ => true
  | scope, _ => true
  | list element, v => List.all v element.isDefinite
  | option inner, v =>
    match v with
    | some v => !inner.isNothing v && inner.isDefinite v
    | none => true

/-- A datum with each option that holds nothing made a missing one. -/
def flatten : (static : StaticType) → static.Carrier → static.Carrier
  | scalar _, v => v
  | scope, v => v
  | list element, v => List.map element.flatten v
  | option inner, v =>
    match v with
    | some v => if inner.isNothing v then none else some (inner.flatten v)
    | none => none

/-- Flattening changes what is not definite, and nothing else. -/
theorem flatten_eq_self_iff {static : StaticType} {datum : static.Carrier} :
    static.flatten datum = datum ↔ static.isDefinite datum = true := by
  induction static with
  | scalar _ | scope => exact iff_of_true rfl rfl
  | list element ih =>
    revert datum
    -- the data of a list are a list only once `Carrier` is unfolded, so the goal is put again for lists
    intro (items : List element.Carrier)
    change items.map element.flatten = items ↔ items.all element.isDefinite = true
    calc items.map element.flatten = items
      _ ↔ items.map element.flatten = items.map id := by rw [List.map_id]
      _ ↔ ∀ item ∈ items, element.flatten item = item := List.map_inj_left
      _ ↔ items.all element.isDefinite = true := by simp only [ih, List.all_eq_true]
  | option inner ih =>
    cases datum with
    | none => exact iff_of_true rfl rfl
    | some datum =>
      change (if inner.isNothing datum then none else some (inner.flatten datum)) = some datum ↔
        (!inner.isNothing datum && inner.isDefinite datum) = true
      cases inner.isNothing datum with
      | true => simp
      | false => simp [ih]

/-! ## Values of data -/

theorem isNull_toValue {static : StaticType} {datum : static.Carrier} :
    (static.toValue datum).isNull = static.isNothing datum := by
  induction static with
  | scalar _ | scope | list _ _ => rfl
  | option inner ih =>
    cases datum with
    | none => rfl
    | some datum => exact ih

theorem carrier?_ofCarrier (kind : ScalarKind) (v : kind.Carrier) :
    (Scalar.ofCarrier kind v).carrier? kind = some v := by
  cases kind <;> rfl

theorem ofValue?_option {inner : StaticType} {value : Value} (present : value.isNull = false) :
    (option inner).ofValue? value = (inner.ofValue? value).map some := by
  cases value with
  | null => cases present
  | _ => rfl

/-- The value of a datum is that of the flattened datum. -/
theorem ofValue?_toValue {static : StaticType} {datum : static.Carrier} :
    static.ofValue? (static.toValue datum) = some (static.flatten datum) := by
  induction static with
  | scalar kind => exact carrier?_ofCarrier kind datum
  | scope => rfl
  | list element ih =>
    revert datum
    intro (items : List element.Carrier)
    change (items.map element.toValue).mapM element.ofValue? = some (items.map element.flatten)
    -- every item has a datum, so the look at all of them is a map
    have each : element.ofValue? ∘ element.toValue = some ∘ element.flatten := funext fun _ => ih
    rw [List.mapM_map, each]
    exact List.mapM_pure (m := Option)
  | option inner ih =>
    cases datum with
    | none => rfl
    | some datum =>
      have null : (inner.toValue datum).isNull = inner.isNothing datum := isNull_toValue
      change (option inner).ofValue? (inner.toValue datum) =
        some (if inner.isNothing datum then none else some (inner.flatten datum))
      cases nothing : inner.isNothing datum with
      | true =>
        have missing : inner.toValue datum = .null := by
          cases shape : inner.toValue datum with
          | null => rfl
          | _ => simp [shape, nothing, Value.isNull] at null
        rw [missing]
        rfl
      | false =>
        rw [ofValue?_option (null.trans nothing), ih]
        rfl

/-! ## What readers look at -/

variable {registry : Registry} {resolver : Resolver} {scope : ScopeId}

/-- The texts in the value of a datum are those of the datum. -/
theorem longestBlob_toValue {limit : Nat} {static : StaticType} {datum : static.Carrier}
    (short : ∀ scalar ∈ static.scalars datum, scalar.blobLength ≤ limit) :
    (static.toValue datum).longestBlob ≤ limit := by
  induction static with
  | scalar kind => exact short _ (List.mem_singleton_self _)
  | scope => exact Nat.zero_le _
  | list element ih =>
    revert datum
    intro (items : List element.Carrier) short
    change ∀ scalar ∈ items.flatMap element.scalars, scalar.blobLength ≤ limit at short
    change Value.longestBlob.longestBlobOf (items.map element.toValue) ≤ limit
    induction items with
    | nil => exact Nat.zero_le _
    | cons item items rest =>
      rw [List.flatMap_cons, List.forall_mem_append] at short
      exact Nat.max_le.mpr ⟨ih short.1, rest short.2⟩
  | option inner ih =>
    cases datum with
    | none => exact Nat.zero_le _
    | some datum => exact ih short

/-- The value of a datum nests no deeper than the datum. -/
theorem nesting_toValue {static : StaticType} {datum : static.Carrier} :
    registry.nesting (static.toValue datum) static.type ≤ static.depth datum := by
  induction static with
  | scalar _ | scope => exact Nat.le_refl 0
  | list element ih =>
    revert datum
    intro (items : List element.Carrier)
    change 0 + registry.nestingItems (items.map element.toValue) element.type ≤
      items.foldr (fun item deepest => max (element.depth item + 1) deepest) 0
    rw [Nat.zero_add]
    induction items with
    | nil => exact Nat.le_refl 0
    | cons item items rest =>
      rw [List.map_cons, Registry.nestingItems, List.foldr_cons]
      exact Nat.max_le.mpr ⟨Nat.le_trans (Nat.succ_le_succ ih) (Nat.le_max_left _ _),
        Nat.le_trans rest (Nat.le_max_right _ _)⟩
  | option inner ih =>
    cases datum with
    | none => exact Nat.zero_le _
    | some datum =>
      change registry.nesting (inner.toValue datum) (.nullable inner.type) ≤ inner.depth datum + 1
      cases absent : (inner.toValue datum).isNull with
      | true =>
        -- an option that holds nothing is written as null, which does not nest at all
        cases shape : inner.toValue datum with
        | null => exact Nat.zero_le _
        | _ => simp [shape, Value.isNull] at absent
      | false =>
        rw [Registry.nesting_nullable absent]
        exact Nat.succ_le_succ ih

/-- The value of a datum stands for itself where the scopes of the datum are known. -/
theorem stands_toValue {static : StaticType} {datum : static.Carrier}
    (known : ∀ named ∈ static.scopes datum, resolver.scope named = true) :
    registry.Stands resolver scope (static.toValue datum) := by
  induction static with
  | scalar kind => trivial
  | scope => exact known _ (List.mem_singleton_self _)
  | list element ih =>
    revert datum
    intro (items : List element.Carrier) known
    change ∀ named ∈ items.flatMap element.scopes, resolver.scope named = true at known
    change Registry.Stands.AllStand registry resolver scope (items.map element.toValue)
    induction items with
    | nil => trivial
    | cons item items rest =>
      rw [List.flatMap_cons, List.forall_mem_append] at known
      exact ⟨ih known.1, rest known.2⟩
  | option inner ih =>
    cases datum with
    | none => trivial
    | some datum => exact ih known

end StaticType

namespace Registry

variable {registry : Registry}

/-! ## From datum to datum -/

/-- A datum that was written is read back wherever its scopes are known, if its texts are short enough and
it nests no deeper than readers go; options that are present and hold nothing come back as missing, and a
datum without such an option comes back as it is. -/
theorem decodeStatic_encodeStatic {declarations : List Declaration}
    (declared : build declarations = .ok registry) {static : StaticType} {datum : static.Carrier}
    {bytes : Bytes} (written : registry.encodeStatic static datum = .ok bytes)
    (short : ∀ scalar ∈ static.scalars datum, scalar.blobLength ≤ maxBlobLength)
    (shallow : static.depth datum ≤ maxDepth) (resolver : Resolver)
    (known : ∀ named ∈ static.scopes datum, resolver.scope named = true) (context : WireContext)
    (suffix : Bytes) :
    registry.decodeStatic resolver context static (bytes ++ suffix) = .ok (static.flatten datum) suffix ∧
      (static.flatten datum = datum ↔ static.isDefinite datum = true) := by
  refine ⟨?_, StaticType.flatten_eq_self_iff⟩
  have fits : registry.Fits static.type (static.toValue datum) :=
    ⟨StaticType.longestBlob_toValue short, Nat.le_trans StaticType.nesting_toValue shallow⟩
  have reads := (readsIff_decode (sound_of_build declared) written resolver context).reads fits
  rw [resolve_eq_self (StaticType.stands_toValue known)] at reads
  refine Reads.bind_last reads ?_ suffix
  rw [StaticType.ofValue?_toValue]
  exact .pure _

/-! ## What comes back and what does not -/

/-- Some are posted in a scope, and some in none. -/
theorem posts_come_back :
    ∃ bytes, bare.encodeStatic (.list (.option .scope))
        ([some (.map 3), none] : List (Option ScopeId)) = .ok bytes ∧
      bare.decodeStatic .everything (.ofScope .global) (.list (.option .scope)) (bytes ++ [9]) =
        .ok ([some (.map 3), none] : List (Option ScopeId)) [9] := by
  have written : bare.encodeStatic (.list (.option .scope))
      ([some (.map 3), none] : List (Option ScopeId)) = .ok [2, 0, 0, 1, 3, 0, 0, 0, 1] := by decide +kernel
  have read := decodeStatic_encodeStatic build_nil written (by decide +kernel) (by decide +kernel)
    .everything (fun _ _ => rfl) (.ofScope .global) [9]
  exact ⟨_, written, read.1⟩

/-- Lists of lists of bytes, so deep. -/
def nestedLists : Nat → StaticType
  | 0 => .scalar .u8
  | depth + 1 => .list (nestedLists depth)

/-- One list within another, the innermost one empty. -/
def nested : (depth : Nat) → (nestedLists (depth + 1)).Carrier
  | 0 => ([] : List (nestedLists 0).Carrier)
  | depth + 1 => ([nested depth] : List (nestedLists (depth + 1)).Carrier)

/-- An option that is present and holds nothing comes back as missing, and lists that nest too deep are
written and do not come back at all. -/
theorem hollow_and_deep_data_do_not_come_back :
    build [] = .ok bare ∧
      (bare.encodeStatic (.option (.option (.scalar .u8)))
          (some none : Option (Option UInt8)) = .ok [1] ∧
        bare.decodeStatic .everything (.ofScope .global) (.option (.option (.scalar .u8))) [1] =
          .ok (none : Option (Option UInt8)) []) ∧
      ∃ bytes error rest, bare.encodeStatic (nestedLists 66) (nested 65) = .ok bytes ∧
        bare.decodeStatic .everything (.ofScope .global) (nestedLists 66) bytes =
          .error error rest := by
  have written : bare.encodeStatic (nestedLists 66) (nested 65) =
      .ok ((List.replicate 65 [1, 0]).flatten ++ [0, 0]) := by decide +kernel
  have deep : ¬bare.Fits (nestedLists 66).type ((nestedLists 66).toValue (nested 65)) := by
    decide +kernel
  have reads := readsIff_decode (sound_of_build build_nil) written .everything (.ofScope .global)
  obtain ⟨error, rest, refused⟩ := (reads.refuses deep).bind _ []
  exact ⟨build_nil, ⟨by decide +kernel, by rfl⟩, _, error, rest, written, refused⟩

end Registry

end Lockstep
