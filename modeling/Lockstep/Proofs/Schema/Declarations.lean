import Lockstep.Proofs.NameOrder
import Lockstep.Proofs.Schema.Registry
import Lockstep.Schema.Encode
import Mathlib.Data.List.Dedup

/-! # What declarations come to

Declarations are taken exactly if they are consistent, and then they come to one registry: the types that
are declared, each interface with the different types that implement it, in name order
(`build_eq_ok_iff`). Nothing of this depends on the order of the declarations (`build_in_any_order`).
-/

namespace Lockstep

namespace Declaration

/-- Nothing is wrong with a declaration by itself. -/
def InOrder : Declaration → Prop
  | .enumeration _ repr discriminants =>
    repr.isInteger = true ∧ ∀ discriminant ∈ discriminants, repr.holds discriminant = true
  | .reference _ categories => (RefCategory.select categories).isSome = true
  | .record _ _ | .interface _ | .implementation _ _ => True

/-- The type that a declaration declares. -/
def declares? : Declaration → Option (String × Descriptor)
  | .enumeration name repr discriminants => some (name, .enumeration repr discriminants)
  | .record name fields => some (name, .record fields)
  | .reference name categories =>
    (RefCategory.select categories).map fun category => (name, .reference category)
  | .interface name => some (name, .interface [])
  | .implementation _ _ => none

end Declaration

/-- A descriptor is that of an interface. -/
def Descriptor.IsInterface (descriptor : Descriptor) : Prop :=
  ∃ implementations, descriptor = .interface implementations

namespace Registry

variable {declared after : Declared} {registry : Registry} {declarations others : List Declaration}

/-! ## Taking in declarations -/

theorem declare_eq_ok {name : String} {descriptor : Descriptor} :
    declare declared name descriptor = .ok after ↔
      declared.lookup name = none ∧ after = declared ++ [(name, descriptor)] := by
  unfold declare
  cases declared.lookup name with
  | some other => simp
  | none => simp [eq_comm]

/-- A declaration that is in order by itself enters its type under a name that is new. -/
theorem addDeclaration_eq_ok {declaration : Declaration} :
    addDeclaration declared declaration = .ok after ↔
      declaration.InOrder ∧ (∀ entry ∈ declaration.declares?, declared.lookup entry.1 = none) ∧
        after = declared ++ declaration.declares?.toList := by
  cases declaration with
  | enumeration name repr discriminants =>
    simp only [addDeclaration, Declaration.InOrder, Declaration.declares?]
    cases integer : repr.isInteger with
    | false => simp
    | true =>
      cases outside : discriminants.find? (!repr.holds ·) with
      | some discriminant =>
        have member := List.mem_of_find?_eq_some outside
        have refused := List.find?_some outside
        simp only [Bool.not_true, Bool.false_eq_true, if_false, reduceCtorEq, true_and, false_iff]
        rintro ⟨held, -⟩
        rw [held discriminant member] at refused
        cases refused
      | none =>
        have held : ∀ discriminant ∈ discriminants, repr.holds discriminant = true := by
          simpa using outside
        simpa [declare_eq_ok] using fun _ _ => held
  | record name fields => simp [addDeclaration, Declaration.InOrder, Declaration.declares?, declare_eq_ok]
  | reference name categories =>
    simp only [addDeclaration, Declaration.InOrder, Declaration.declares?]
    cases RefCategory.select categories with
    | none => simp
    | some category => simp [declare_eq_ok]
  | interface name => simp [addDeclaration, Declaration.InOrder, Declaration.declares?, declare_eq_ok]
  | implementation interface concrete =>
    simpa [addDeclaration, Declaration.InOrder, Declaration.declares?] using eq_comm

/-- Names stay different exactly if a type that enters has a new one. -/
theorem nodup_entered (distinct : (declared.map (·.1)).Nodup) {new? : Option (String × Descriptor)} :
    ((declared ++ new?.toList).map (·.1)).Nodup ↔
      ∀ entry ∈ new?, declared.lookup entry.1 = none := by
  cases new? with
  | none => simpa using distinct
  | some entry =>
    rw [Option.toList_some, List.map_append, List.map_singleton, ← List.concat_eq_append,
      List.nodup_concat]
    simp only [Option.mem_some_iff, forall_eq', lookup_eq_none_iff, distinct, and_true]

/-- Declarations that are in order one by one enter their types, if no name comes twice. -/
theorem addDeclarations_eq_ok (distinct : (declared.map (·.1)).Nodup) :
    declarations.foldlM addDeclaration declared = .ok after ↔
      (∀ declaration ∈ declarations, declaration.InOrder) ∧ (after.map (·.1)).Nodup ∧
        after = declared ++ declarations.filterMap Declaration.declares? := by
  induction declarations generalizing declared with
  | nil =>
    simp only [List.foldlM_nil, List.filterMap_nil, List.append_nil]
    constructor
    · intro same
      cases same
      exact ⟨List.forall_mem_nil _, distinct, rfl⟩
    · rintro ⟨-, -, rfl⟩
      rfl
  | cons declaration declarations ih =>
    have entries : declared ++ (declaration :: declarations).filterMap Declaration.declares? =
        (declared ++ declaration.declares?.toList) ++ declarations.filterMap Declaration.declares? := by
      rw [List.filterMap_cons, List.append_assoc]
      cases declaration.declares? <;> rfl
    rw [List.foldlM_cons, bind_eq_ok, List.forall_mem_cons, entries]
    constructor
    · rintro ⟨next, first, rest⟩
      obtain ⟨inOrder, fresh, rfl⟩ := addDeclaration_eq_ok.mp first
      obtain ⟨others, different, same⟩ := (ih ((nodup_entered distinct).mpr fresh)).mp rest
      exact ⟨⟨inOrder, others⟩, different, same⟩
    · rintro ⟨⟨inOrder, others⟩, different, same⟩
      have first : ((declared ++ declaration.declares?.toList).map (·.1)).Nodup := by
        rw [same, List.map_append] at different
        exact (List.nodup_append.mp different).1
      refine ⟨_, addDeclaration_eq_ok.mpr ⟨inOrder, (nodup_entered distinct).mp first, rfl⟩, ?_⟩
      exact (ih first).mpr ⟨others, different, same⟩

/-! ## Taking in implementations -/

/-- An implementation can be entered: its type is declared and no interface, and its interface is one. -/
structure Implements (declared : Declared) (pair : String × String) : Prop where
  concrete : ∃ descriptor, (pair.2, descriptor) ∈ declared ∧ ¬descriptor.IsInterface
  interface : ∃ descriptor, (pair.1, descriptor) ∈ declared ∧ descriptor.IsInterface

/-- The implementations of an interface with one more, which may be among them. -/
def addConcrete (implementations : List String) (concrete : String) : List String :=
  if implementations.contains concrete then implementations else implementations ++ [concrete]

/-- What an implementation changes in the descriptor of a name. -/
def enter (name : String) (descriptor : Descriptor) (pair : String × String) : Descriptor :=
  match descriptor with
  | .interface implementations =>
    if name = pair.1 then .interface (addConcrete implementations pair.2) else descriptor
  | _ => descriptor

/-- What an implementation changes. -/
def enterPair (declared : Declared) (pair : String × String) : Declared :=
  declared.map fun entry => (entry.1, enter entry.1 entry.2 pair)

theorem map_fst_enterPair (declared : Declared) (pair : String × String) :
    (enterPair declared pair).map (·.1) = declared.map (·.1) := by
  rw [enterPair, List.map_map]
  rfl

/-- Only the entry of the interface changes, and its descriptor is the one that is found. -/
theorem enterPair_eq (distinct : (declared.map (·.1)).Nodup) {pair : String × String}
    {implementations : List String} (there : (pair.1, .interface implementations) ∈ declared) :
    enterPair declared pair = if implementations.contains pair.2 then declared
      else declared.map fun entry =>
        if entry.1 == pair.1 then (pair.1, .interface (implementations ++ [pair.2])) else entry := by
  have changed (entry : String × Descriptor) (member : entry ∈ declared) :
      (entry.1, enter entry.1 entry.2 pair) =
        if entry.1 = pair.1 then (pair.1, .interface (addConcrete implementations pair.2)) else entry := by
    by_cases same : entry.1 = pair.1
    · obtain rfl : entry = (pair.1, .interface implementations) :=
        List.inj_on_of_nodup_map distinct member there same
      simp [enter]
    · rw [if_neg same]
      unfold enter
      split
      next implementations kind => rw [if_neg same]
      next => rfl
  rw [enterPair, List.map_congr_left changed, addConcrete]
  split
  next =>
    refine (List.map_congr_left fun entry member => ?_).trans (List.map_id declared)
    by_cases same : entry.1 = pair.1
    · exact (if_pos same).trans (List.inj_on_of_nodup_map distinct there member same.symm)
    · exact if_neg same
  next => simp only [beq_iff_eq]

/-- An implementation that can be entered is entered; entered again it changes nothing. -/
theorem addImplementation_eq_ok (distinct : (declared.map (·.1)).Nodup) {pair : String × String} :
    addImplementation declared pair.1 pair.2 = .ok after ↔
      Implements declared pair ∧ after = enterPair declared pair := by
  have outcome {implementations : List String}
      (there : (pair.1, .interface implementations) ∈ declared) :
      (if implementations.contains pair.2 then .ok declared
        else .ok (declared.map fun entry =>
          if entry.1 == pair.1 then (pair.1, .interface (implementations ++ [pair.2])) else entry) :
        Except DeclarationError Declared) = .ok (enterPair declared pair) := by
    rw [enterPair_eq distinct there]
    split <;> rfl
  unfold addImplementation
  constructor
  · intro success
    split at success
    next => cases success
    next => cases success
    next descriptor plain found =>
      split at success
      next implementations interface =>
        have there := (lookup_eq_some_iff distinct).mp interface
        rw [outcome there] at success
        cases success
        have concrete := (lookup_eq_some_iff distinct).mp found
        exact ⟨⟨⟨_, concrete, fun ⟨others, same⟩ => plain others same⟩, _, there, _, rfl⟩, rfl⟩
      next => cases success
  · rintro ⟨⟨⟨descriptor, concrete, plain⟩, _, there, implementations, rfl⟩, rfl⟩
    rw [(lookup_eq_some_iff distinct).mpr concrete, (lookup_eq_some_iff distinct).mpr there]
    cases descriptor with
    | interface others => exact absurd ⟨others, rfl⟩ plain
    | _ => exact outcome there

/-- Entering an implementation makes no type an interface, and none something else. -/
theorem isInterface_enter (name : String) (descriptor : Descriptor) (pair : String × String) :
    (enter name descriptor pair).IsInterface ↔ descriptor.IsInterface := by
  unfold enter
  split
  next implementations =>
    split
    · exact ⟨fun _ => ⟨_, rfl⟩, fun _ => ⟨_, rfl⟩⟩
    · exact Iff.rfl
  next => exact Iff.rfl

theorem implements_enterPair {pair other : String × String} :
    Implements (enterPair declared pair) other ↔ Implements declared other := by
  have kept (name : String) (kind : Descriptor → Prop)
      (keeps : ∀ descriptor, kind (enter name descriptor pair) ↔ kind descriptor) :
      (∃ descriptor, (name, descriptor) ∈ enterPair declared pair ∧ kind descriptor) ↔
        ∃ descriptor, (name, descriptor) ∈ declared ∧ kind descriptor := by
    simp only [enterPair, List.mem_map, Prod.mk.injEq]
    constructor
    · rintro ⟨_, ⟨entry, member, rfl, rfl⟩, holds⟩
      exact ⟨entry.2, member, (keeps entry.2).mp holds⟩
    · rintro ⟨descriptor, member, holds⟩
      exact ⟨_, ⟨_, member, rfl, rfl⟩, (keeps descriptor).mpr holds⟩
  have concrete := kept other.2 (¬·.IsInterface) fun descriptor =>
    not_congr (isInterface_enter other.2 descriptor pair)
  have interface := kept other.1 (·.IsInterface) fun descriptor => isInterface_enter other.1 descriptor pair
  exact ⟨fun ⟨first, second⟩ => ⟨concrete.mp first, interface.mp second⟩,
    fun ⟨first, second⟩ => ⟨concrete.mpr first, interface.mpr second⟩⟩

theorem addImplementations_eq_ok (distinct : (declared.map (·.1)).Nodup) {pairs : List (String × String)} :
    pairs.foldlM (fun declared pair => addImplementation declared pair.1 pair.2) declared = .ok after ↔
      (∀ pair ∈ pairs, Implements declared pair) ∧ after = pairs.foldl enterPair declared := by
  induction pairs generalizing declared with
  | nil =>
    rw [List.foldlM_nil, List.foldl_nil]
    constructor
    · intro same
      cases same
      exact ⟨List.forall_mem_nil _, rfl⟩
    · rintro ⟨-, rfl⟩
      rfl
  | cons pair pairs ih =>
    have entered : ((enterPair declared pair).map (·.1)).Nodup := by rwa [map_fst_enterPair]
    rw [List.foldlM_cons, bind_eq_ok, List.forall_mem_cons, List.foldl_cons]
    constructor
    · rintro ⟨next, first, rest⟩
      obtain ⟨implements, rfl⟩ := (addImplementation_eq_ok distinct).mp first
      obtain ⟨others, same⟩ := (ih entered).mp rest
      exact ⟨⟨implements, fun other member => implements_enterPair.mp (others other member)⟩, same⟩
    · rintro ⟨⟨implements, others⟩, same⟩
      refine ⟨_, (addImplementation_eq_ok distinct).mpr ⟨implements, rfl⟩, (ih entered).mpr ⟨?_, same⟩⟩
      exact fun other member => implements_enterPair.mpr (others other member)

/-! ## The implementations of an interface -/

theorem mem_addConcrete {implementations : List String} {concrete other : String} :
    other ∈ addConcrete implementations concrete ↔ other ∈ implementations ∨ other = concrete := by
  unfold addConcrete
  split
  next listed =>
    have listed : concrete ∈ implementations := List.contains_iff_mem.mp listed
    exact ⟨.inl, fun member => member.elim id fun same => same ▸ listed⟩
  next => simp

theorem nodup_addConcrete {implementations : List String} (different : implementations.Nodup)
    (concrete : String) : (addConcrete implementations concrete).Nodup := by
  unfold addConcrete
  split
  next => exact different
  next fresh =>
    have fresh : concrete ∉ implementations := fun member => fresh (List.contains_iff_mem.mpr member)
    rw [← List.concat_eq_append, List.nodup_concat]
    exact ⟨fresh, different⟩

theorem mem_foldl_addConcrete {concretes implementations : List String} {other : String} :
    other ∈ concretes.foldl addConcrete implementations ↔ other ∈ implementations ∨ other ∈ concretes := by
  induction concretes generalizing implementations with
  | nil => simp
  | cons concrete concretes ih => rw [List.foldl_cons, ih, mem_addConcrete, List.mem_cons, or_assoc]

theorem nodup_foldl_addConcrete {concretes implementations : List String}
    (different : implementations.Nodup) : (concretes.foldl addConcrete implementations).Nodup := by
  induction concretes generalizing implementations with
  | nil => exact different
  | cons concrete concretes ih => exact ih (nodup_addConcrete different concrete)

/-- Implementations that are entered one by one are the different ones, in some order. -/
theorem foldl_addConcrete_perm (concretes : List String) :
    (concretes.foldl addConcrete []).Perm concretes.dedup := by
  have different : (concretes.foldl addConcrete []).Nodup := nodup_foldl_addConcrete List.nodup_nil
  refine (List.perm_ext_iff_of_nodup different (List.nodup_dedup _)).mpr fun other => ?_
  rw [mem_foldl_addConcrete, List.mem_dedup]
  simp

/-- The different types that implement an interface, in name order. -/
def implementers (declarations : List Declaration) (interface : String) : List String :=
  sortByName id (((implementationPairs declarations).filter (interface = ·.1)).map (·.2)).dedup

/-- The descriptor of a declared type once all declarations are known. -/
def complete (declarations : List Declaration) (name : String) : Descriptor → Descriptor
  | .interface _ => .interface (implementers declarations name)
  | descriptor => descriptor

/-- The types that declarations declare, each by itself. -/
def declaredTypes (declarations : List Declaration) : Declared :=
  builtin ++ declarations.filterMap Declaration.declares?

/-- The types that declarations declare, with the implementations of the interfaces. -/
def completed (declarations : List Declaration) : Declared :=
  (declaredTypes declarations).map fun entry => (entry.1, complete declarations entry.1 entry.2)

theorem foldl_enterPair (pairs : List (String × String)) (declared : Declared) :
    pairs.foldl enterPair declared =
      declared.map fun entry => (entry.1, pairs.foldl (enter entry.1) entry.2) := by
  induction pairs generalizing declared with
  | nil => simp
  | cons pair pairs ih =>
    rw [List.foldl_cons, ih, enterPair, List.map_map]
    rfl

theorem foldl_enter_interface (name : String) (pairs : List (String × String))
    (implementations : List String) :
    pairs.foldl (enter name) (.interface implementations) =
      .interface (((pairs.filter (name = ·.1)).map (·.2)).foldl addConcrete implementations) := by
  induction pairs generalizing implementations with
  | nil => rfl
  | cons pair pairs ih =>
    rw [List.foldl_cons, List.filter_cons, enter]
    by_cases same : name = pair.1
    · simp only [same, if_true, decide_true] at ih ⊢
      rw [ih, List.map_cons, List.foldl_cons]
    · simp only [same, if_false, decide_false] at ih ⊢
      exact ih implementations

theorem foldl_enter_of_not_isInterface (name : String) (pairs : List (String × String))
    {descriptor : Descriptor} (plain : ¬descriptor.IsInterface) :
    pairs.foldl (enter name) descriptor = descriptor := by
  induction pairs with
  | nil => rfl
  | cons pair pairs ih =>
    have same : enter name descriptor pair = descriptor := by
      cases descriptor with
      | interface others => exact absurd ⟨others, rfl⟩ plain
      | _ => rfl
    rw [List.foldl_cons, same, ih]

/-- An interface is declared without implementations. -/
theorem eq_nil_of_mem_declaredTypes {name : String} {implementations : List String}
    (member : (name, .interface implementations) ∈ declaredTypes declarations) : implementations = [] := by
  rcases List.mem_append.mp member with member | member
  · cases List.mem_singleton.mp member
  · obtain ⟨declaration, -, declares⟩ := List.mem_filterMap.mp member
    cases declaration with
    | interface name =>
      cases declares
      rfl
    | reference name categories =>
      obtain ⟨category, -, impossible⟩ := Option.map_eq_some_iff.mp declares
      cases impossible
    | _ => cases declares

/-- What entering and sorting the implementations come to. -/
theorem sorted_foldl_enterPair :
    (((implementationPairs declarations).foldl enterPair (declaredTypes declarations)).map fun entry =>
      (entry.1, sortImplementations entry.2)) = completed declarations := by
  rw [foldl_enterPair, List.map_map]
  refine List.map_congr_left fun entry member => Prod.ext rfl ?_
  obtain ⟨name, descriptor⟩ := entry
  cases descriptor with
  | interface implementations =>
    obtain rfl := eq_nil_of_mem_declaredTypes member
    simp only [Function.comp, foldl_enter_interface, sortImplementations, complete, implementers]
    have perm := foldl_addConcrete_perm
      (((implementationPairs declarations).filter (name = ·.1)).map (·.2))
    rw [sortByName_eq_of_perm id ?_ perm]
    rw [List.map_id]
    exact perm.nodup_iff.mpr (List.nodup_dedup _)
  | _ =>
    simp only [Function.comp]
    rw [foldl_enter_of_not_isInterface]
    · rfl
    · rintro ⟨_, impossible⟩
      cases impossible

/-! ## What is taken -/

/-- Nothing is wrong with declarations: each is in order by itself, no name is declared twice,
implementations are of the right kind and not too many, and what a type mentions is declared. -/
structure Consistent (declarations : List Declaration) : Prop where
  inOrder : ∀ declaration ∈ declarations, declaration.InOrder
  distinct : ((declaredTypes declarations).map (·.1)).Nodup
  implements : ∀ pair ∈ implementationPairs declarations, Implements (declaredTypes declarations) pair
  few : ∀ {name : String} {implementations : List String},
    (name, .interface implementations) ∈ completed declarations → implementations.length < 65535
  closed : ∀ entry ∈ completed declarations, ∀ name ∈ entry.2.dependencies,
    name ∈ (completed declarations).map (·.1)

theorem map_fst_completed (declarations : List Declaration) :
    (completed declarations).map (·.1) = (declaredTypes declarations).map (·.1) := by
  rw [completed, List.map_map]
  rfl

theorem checkCounts_eq_ok : checkCounts declared = .ok () ↔
    ∀ {name : String} {implementations : List String},
      (name, .interface implementations) ∈ declared → implementations.length < 65535 := by
  rw [checkCounts, forM_eq_ok]
  constructor
  · intro checked name implementations member
    have checked := checked _ member
    simp only at checked
    split at checked
    next => cases checked
    next few => exact Nat.not_le.mp few
  · intro few entry member
    obtain ⟨name, descriptor⟩ := entry
    cases descriptor with
    | interface implementations => exact if_neg (Nat.not_le.mpr (few member))
    | _ => rfl

theorem checkDependencies_eq_ok : checkDependencies declared = .ok () ↔
    ∀ entry ∈ declared, ∀ name ∈ entry.2.dependencies, name ∈ declared.map (·.1) := by
  rw [checkDependencies, forM_eq_ok]
  refine forall₂_congr fun entry member => ?_
  have known (name : String) : (declared.lookup name).isNone = false ↔ name ∈ declared.map (·.1) := by
    rw [← Bool.not_eq_true, Option.isNone_iff_eq_none, lookup_eq_none_iff, Decidable.not_not]
  cases missing : entry.2.dependencies.find? fun name => (declared.lookup name).isNone with
  | some name =>
    simp only [reduceCtorEq, false_iff]
    intro closed
    have present := (known name).mpr (closed name (List.mem_of_find?_eq_some missing))
    rw [List.find?_some missing] at present
    cases present
  | none =>
    simp only [true_iff]
    intro name dependency
    exact (known name).mp (Bool.eq_false_iff.mpr (List.find?_eq_none.mp missing name dependency))

/-- Declarations are taken exactly if they are consistent, and then they come to the completed types. -/
theorem build_eq_ok_iff :
    build declarations = .ok registry ↔
      Consistent declarations ∧ registry = ⟨.ofList (completed declarations)⟩ := by
  have first : (builtin.map (·.1)).Nodup := List.nodup_singleton _
  unfold build
  constructor
  · intro built
    obtain ⟨types, entered, built⟩ := bind_eq_ok.mp built
    obtain ⟨inOrder, distinct, rfl⟩ := (addDeclarations_eq_ok first).mp entered
    obtain ⟨after, implemented, built⟩ := bind_eq_ok.mp built
    obtain ⟨implements, rfl⟩ := (addImplementations_eq_ok distinct).mp implemented
    rw [← declaredTypes, sorted_foldl_enterPair] at built
    obtain ⟨_, counts, built⟩ := bind_eq_ok.mp built
    obtain ⟨_, dependencies, built⟩ := bind_eq_ok.mp built
    cases built
    exact ⟨⟨inOrder, distinct, implements, checkCounts_eq_ok.mp counts,
      checkDependencies_eq_ok.mp dependencies⟩, rfl⟩
  · rintro ⟨consistent, rfl⟩
    refine bind_eq_ok.mpr ⟨_, (addDeclarations_eq_ok first).mpr
      ⟨consistent.inOrder, consistent.distinct, rfl⟩, ?_⟩
    refine bind_eq_ok.mpr ⟨_, (addImplementations_eq_ok consistent.distinct).mpr
      ⟨consistent.implements, rfl⟩, ?_⟩
    rw [sorted_foldl_enterPair]
    refine bind_eq_ok.mpr ⟨(), checkCounts_eq_ok.mpr consistent.few, ?_⟩
    exact bind_eq_ok.mpr ⟨(), checkDependencies_eq_ok.mpr consistent.closed, rfl⟩

theorem Consistent.distinct_completed (consistent : Consistent declarations) :
    ((completed declarations).map (·.1)).Nodup := by
  rw [map_fst_completed]
  exact consistent.distinct

/-- What is found in a registry. -/
theorem descriptor?_eq_some_iff (built : build declarations = .ok registry) {name : String}
    {descriptor : Descriptor} :
    registry.descriptor? name = some descriptor ↔ (name, descriptor) ∈ completed declarations := by
  obtain ⟨consistent, rfl⟩ := build_eq_ok_iff.mp built
  rw [descriptor?, SortedMap.get?_ofList consistent.distinct_completed,
    lookup_eq_some_iff consistent.distinct_completed]

/-! ## The order of declarations -/

theorem declaredTypes_perm (perm : declarations.Perm others) :
    (declaredTypes declarations).Perm (declaredTypes others) :=
  (perm.filterMap _).append_left builtin

theorem implementationPairs_perm (perm : declarations.Perm others) :
    (implementationPairs declarations).Perm (implementationPairs others) :=
  perm.filterMap _

theorem implementers_eq_of_perm (perm : declarations.Perm others) :
    implementers declarations = implementers others := by
  funext interface
  refine sortByName_eq_of_perm id ?_ ((((implementationPairs_perm perm).filter _).map _).dedup)
  rw [List.map_id]
  exact List.nodup_dedup _

theorem completed_perm (perm : declarations.Perm others) :
    (completed declarations).Perm (completed others) := by
  have same : complete declarations = complete others := by
    funext name descriptor
    cases descriptor with
    | interface _ => exact congrArg (Descriptor.interface <| · name) (implementers_eq_of_perm perm)
    | _ => rfl
  rw [completed, completed, same]
  exact (declaredTypes_perm perm).map _

theorem Implements.perm {types types' : Declared} (perm : types.Perm types') {pair : String × String}
    (implements : Implements types pair) : Implements types' pair where
  concrete :=
    let ⟨descriptor, member, plain⟩ := implements.concrete
    ⟨descriptor, perm.mem_iff.mp member, plain⟩
  interface :=
    let ⟨descriptor, member, abstract⟩ := implements.interface
    ⟨descriptor, perm.mem_iff.mp member, abstract⟩

theorem Consistent.perm (perm : declarations.Perm others) (consistent : Consistent declarations) :
    Consistent others where
  inOrder declaration member := consistent.inOrder declaration (perm.mem_iff.mpr member)
  distinct := ((declaredTypes_perm perm).map _).nodup_iff.mp consistent.distinct
  implements pair member :=
    (consistent.implements pair ((implementationPairs_perm perm).mem_iff.mpr member)).perm
      (declaredTypes_perm perm)
  few member := consistent.few ((completed_perm perm).mem_iff.mpr member)
  closed entry member name dependency :=
    ((completed_perm perm).map _).mem_iff.mp
      (consistent.closed entry ((completed_perm perm).mem_iff.mpr member) name dependency)

/-- Declarations in another order come to the same registry. -/
theorem build_eq_ok_of_perm (perm : declarations.Perm others)
    (built : build declarations = .ok registry) : build others = .ok registry := by
  obtain ⟨consistent, rfl⟩ := build_eq_ok_iff.mp built
  refine build_eq_ok_iff.mpr ⟨consistent.perm perm, congrArg Registry.mk ?_⟩
  refine SortedMap.ext fun name => Option.ext fun descriptor => ?_
  have distinct := consistent.distinct_completed
  have distinct' := (consistent.perm perm).distinct_completed
  rw [SortedMap.get?_ofList distinct, SortedMap.get?_ofList distinct', lookup_eq_some_iff distinct,
    lookup_eq_some_iff distinct', (completed_perm perm).mem_iff]

/-- The order of declarations leaves no trace: in every order they are taken or none, and then the
registries have the same names with equal descriptors and implementations, the same fingerprint, and
write every value alike. -/
theorem build_in_any_order (perm : declarations.Perm others) :
    ((∃ registry, build declarations = .ok registry) ↔ ∃ registry, build others = .ok registry) ∧
      ∀ {registry other : Registry}, build declarations = .ok registry → build others = .ok other →
        registry.types.keys = other.types.keys ∧
          (∀ name, registry.descriptor? name = other.descriptor? name) ∧
          (∀ interface, registry.implementations? interface = other.implementations? interface) ∧
          registry.fingerprint = other.fingerprint ∧
          ∀ type value, registry.encode type value = other.encode type value := by
  refine ⟨⟨?_, ?_⟩, ?_⟩
  · rintro ⟨registry, built⟩
    exact ⟨registry, build_eq_ok_of_perm perm built⟩
  · rintro ⟨registry, built⟩
    exact ⟨registry, build_eq_ok_of_perm perm.symm built⟩
  · intro registry other built built'
    obtain rfl : registry = other := Except.ok.inj ((build_eq_ok_of_perm perm built).symm.trans built')
    exact ⟨rfl, fun _ => rfl, fun _ => rfl, rfl, fun _ _ => rfl⟩

end Registry

/-! ## Jobs -/

/-- Two kinds of jobs. -/
def jobDeclarations : List Declaration :=
  [.interface "Job", .record "Mine" [], .record "Haul" [⟨"cargo", .list (.named "Job")⟩],
    .implementation "Job" "Mine", .implementation "Job" "Haul"]

/-- The same jobs, implemented before they are declared. -/
def shuffledJobDeclarations : List Declaration :=
  [.implementation "Job" "Haul", .record "Haul" [⟨"cargo", .list (.named "Job")⟩],
    .implementation "Job" "Mine", .record "Mine" [], .interface "Job"]

def jobRegistry : Registry := (Registry.build jobDeclarations).toOption.get (by decide +kernel)

/-- Whoever declares the jobs the other way round numbers them alike. -/
theorem jobs_in_any_order :
    jobDeclarations.Perm shuffledJobDeclarations ∧
      jobRegistry.implementations? "Job" = some ["Haul", "Mine"] ∧
      ∃ other, Registry.build shuffledJobDeclarations = .ok other ∧
        other.implementations? "Job" = some ["Haul", "Mine"] ∧
        jobRegistry.fingerprint = other.fingerprint := by
  have perm : jobDeclarations.Perm shuffledJobDeclarations := by decide
  have built : Registry.build jobDeclarations = .ok jobRegistry := by rfl
  have listed : jobRegistry.implementations? "Job" = some ["Haul", "Mine"] := by rfl
  obtain ⟨taken, same⟩ := Registry.build_in_any_order perm
  obtain ⟨other, built'⟩ := taken.mp ⟨_, built⟩
  obtain ⟨-, -, implementations, fingerprint, -⟩ := same built built'
  exact ⟨perm, listed, other, built', (implementations "Job").symm.trans listed, fingerprint⟩

end Lockstep
