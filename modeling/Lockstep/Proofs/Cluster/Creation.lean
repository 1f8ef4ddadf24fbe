import Lockstep.Cluster
import Lockstep.Proofs.Success
import Mathlib.Tactic.SplitIfs

/-! # New clusters

The peers of a new cluster differ in their numbers and in nothing else: each has the scopes of the
template, all at their first tick, and has been told that the authority is at its first. Under
settings that are accepted, only memory can be wanting for it.
-/

namespace Lockstep

variable {W : Type}

/-- A peer that has joined nothing and simulated nothing, with some scopes. -/
def Template.bare (template : Template W) (scopes : SortedMap ScopeId ScopeState) : Peer W where
  config := template.config
  table := template.table
  world := template.world
  scopes := scopes
  inbox := { capacity := template.config.maxInboundQueue }
  arbiter := .new template.config.driftHistory

/-- Scopes that start at a tick, or at the first one if they are global. -/
def Template.StartsAt (template : Template W) (tick : Tick)
    (scopes : SortedMap ScopeId ScopeState) : Prop :=
  ∀ scope state, scopes.get? scope = some state → (scope = .global ∨ scope ∈ template.scopes) ∧
    (state = Peer.startScope template.config scope 0 ∨
      state = Peer.startScope template.config scope tick)

theorem Template.StartsAt.insert {template : Template W} {tick first : Tick}
    {scopes : SortedMap ScopeId ScopeState} {scope : ScopeId}
    (starts : template.StartsAt tick scopes) (named : scope = .global ∨ scope ∈ template.scopes)
    (here : first = 0 ∨ first = tick) :
    template.StartsAt tick (scopes.insert scope (Peer.startScope template.config scope first)) := by
  intro other state found
  rcases SortedMap.get?_insert_eq_some.mp found with ⟨rfl, rfl⟩ | ⟨_, found⟩
  · exact ⟨named, here.imp (congrArg _) (congrArg _)⟩
  · exact starts other state found

theorem Inbox.create_eq_ok {capacity : Nat} {inbox : Inbox}
    (created : Inbox.create capacity = .ok inbox) : inbox = { capacity } := by
  simp only [Inbox.create] at created
  split at created
  · cases created
  · obtain ⟨_, -, created⟩ := bind_eq_ok.mp created
    exact (Except.ok.inj created).symm

theorem Peer.create_eq_ok {template : Template W} {peer : Peer W}
    (created : Peer.create template.config template.table template.world = .ok peer) :
    template.config.validate = .ok () ∧
      peer = template.bare
        (SortedMap.empty.insert .global (startScope template.config .global 0)) := by
  obtain ⟨_, valid, created⟩ := bind_eq_ok.mp created
  obtain ⟨inbox, made, created⟩ := bind_eq_ok.mp created
  obtain ⟨_, -, created⟩ := bind_eq_ok.mp created
  refine ⟨mapError_eq_ok.mp valid, ?_⟩
  have empty := Inbox.create_eq_ok (mapError_eq_ok.mp made)
  subst empty
  exact (Except.ok.inj created).symm

theorem Peer.addScope_eq_ok {peer after : Peer W} {scope : ScopeId} {start : Tick}
    (added : peer.addScope scope start = .ok after) :
    after =
      { peer with scopes := peer.scopes.insert scope (startScope peer.config scope start) } := by
  simp only [addScope] at added
  split at added
  · cases added
  · exact (Except.ok.inj added).symm

/-- A peer of a template is bare, apart from its scopes. -/
theorem Template.start_eq_ok {template : Template W} {tick : Tick} {peer : Peer W}
    (started : template.start tick = .ok peer) :
    template.config.validate = .ok () ∧ ∃ scopes, peer = template.bare scopes ∧
      template.StartsAt tick scopes := by
  obtain ⟨first, created, added⟩ := bind_eq_ok.mp started
  obtain ⟨valid, rfl⟩ := Peer.create_eq_ok created
  refine ⟨valid, ?_⟩
  have none : template.StartsAt tick .empty := fun _ _ impossible => nomatch impossible
  have global :
      template.StartsAt tick
        (SortedMap.empty.insert .global (Peer.startScope template.config .global 0)) :=
    none.insert (.inl rfl) (.inl rfl)
  -- The scopes of the template join one after another.
  have steps (rest : List ScopeId) (named : ∀ scope ∈ rest, scope ∈ template.scopes)
      (scopes : SortedMap ScopeId ScopeState) (starts : template.StartsAt tick scopes)
      (added : rest.foldlM (fun (peer : Peer W) scope => peer.addScope scope tick)
          (template.bare scopes) = .ok peer) :
      ∃ scopes, peer = template.bare scopes ∧ template.StartsAt tick scopes := by
    induction rest generalizing scopes with
    | nil => exact ⟨scopes, (Except.ok.inj added).symm, starts⟩
    | cons scope rest ih =>
      obtain ⟨middle, here, later⟩ := bind_eq_ok.mp added
      rw [Peer.addScope_eq_ok here] at later
      refine ih (fun other member => named other (List.mem_cons_of_mem _ member)) _ ?_ later
      exact starts.insert (.inr (named scope List.mem_cons_self)) (.inr rfl)
  exact steps template.scopes (fun _ member => member) _ global (mapError_eq_ok.mp added)

/-! ## What may be wanting -/

theorem SyncConfig.inboundQueue_ne_zero {config : SyncConfig} (accepted : config.validate = .ok ()) :
    config.maxInboundQueue ≠ 0 := by
  intro none
  simp only [validate, none] at accepted
  split_ifs at accepted

/-- Memory cannot be set aside for the messages that a peer may have waiting, or for the samples of
a scope. -/
def SyncConfig.Exceeds (config : SyncConfig) (breakdown : Breakdown) : Prop :=
  Inbox.create config.maxInboundQueue = .error breakdown ∨
    DriftMonitor.reserve config.driftSampleCapacity = .error breakdown

theorem Peer.create_eq_error {config : SyncConfig} {table : HandlerTable W} {world : W}
    {error : SetupError} (accepted : config.validate = .ok ())
    (failed : Peer.create config table world = .error error) :
    ∃ breakdown, error = .brokeDown breakdown ∧ config.Exceeds breakdown := by
  rcases bind_eq_error.mp failed with refused | ⟨_, -, failed⟩
  · obtain ⟨_, impossible, _⟩ := mapError_eq_error.mp refused
    cases accepted.symm.trans impossible
  rcases bind_eq_error.mp failed with crowded | ⟨_, -, failed⟩
  · obtain ⟨breakdown, unmade, rfl⟩ := mapError_eq_error.mp crowded
    exact ⟨breakdown, rfl, .inl unmade⟩
  rcases bind_eq_error.mp failed with crowded | ⟨_, -, impossible⟩
  · obtain ⟨breakdown, unmade, rfl⟩ := mapError_eq_error.mp crowded
    exact ⟨breakdown, rfl, .inr unmade⟩
  · cases impossible

/-- Scopes join that a peer does not have. -/
theorem Peer.addScopes_returns (peer : Peer W) {scopes : List ScopeId} (distinct : scopes.Nodup)
    (absent : ∀ scope ∈ scopes, peer.scopes.get? scope = none) (start : Tick) :
    ∃ after, scopes.foldlM (fun (peer : Peer W) scope => peer.addScope scope start) peer =
      .ok after := by
  induction scopes generalizing peer with
  | nil => exact ⟨peer, rfl⟩
  | cons scope scopes ih =>
    obtain ⟨others, distinct⟩ := List.nodup_cons.mp distinct
    obtain ⟨here, absent⟩ := List.forall_mem_cons.mp absent
    have added : peer.addScope scope start = .ok
        { peer with scopes := peer.scopes.insert scope (startScope peer.config scope start) } := by
      rw [addScope, SortedMap.contains, here]
      rfl
    have still (other : ScopeId) (member : other ∈ scopes) :
        (peer.scopes.insert scope (startScope peer.config scope start)).get? other = none := by
      have apart : other ≠ scope := fun same => others (same ▸ member)
      rw [SortedMap.get?_insert_of_ne _ _ apart]
      exact absent other member
    obtain ⟨after, joined⟩ := ih { peer with scopes := peer.scopes.insert scope _ } distinct still
    exact ⟨after, bind_eq_ok.mpr ⟨_, added, joined⟩⟩

/-- With scopes that are neither global nor named twice, nothing but a peer itself can be
wanting. -/
theorem Template.start_eq_error {template : Template W} {tick : Tick} {error : SetupError}
    (distinct : template.scopes.Nodup) (mapped : .global ∉ template.scopes)
    (failed : template.start tick = .error error) :
    Peer.create template.config template.table template.world = .error error := by
  rcases bind_eq_error.mp failed with failed | ⟨peer, created, failed⟩
  · exact failed
  obtain ⟨_, rfl⟩ := Peer.create_eq_ok created
  have absent (scope : ScopeId) (member : scope ∈ template.scopes) :
      (SortedMap.empty.insert .global (Peer.startScope template.config .global 0)).get? scope =
          none := by
    have apart : scope ≠ .global := fun same => mapped (same ▸ member)
    rw [SortedMap.get?_insert_of_ne _ _ apart]
    rfl
  obtain ⟨after, joined⟩ := Peer.addScopes_returns (template.bare _) distinct absent tick
  obtain ⟨_, impossible, _⟩ := mapError_eq_error.mp failed
  cases joined.symm.trans impossible

namespace Cluster

/-- A peer as it joins an authority that has told it a tick. -/
def newcomer (notice : Inbound) (peer : Peer W) (id : PeerId) : Member W :=
  Member.tell [notice] { peer := { peer with id }, number := some id }

/-- What joining changes: the authority counts one more, and the peers are those before and the
newcomer. -/
theorem join_eq_ok {cluster after : Cluster W} {start : Tick} {id : PeerId}
    (joined : cluster.join start = .ok (id, after)) :
    ∃ peer, cluster.template.start start = .ok peer ∧
      after = { cluster with
        authority := { cluster.authority with nextPeer := cluster.authority.nextPeer + 1 }
        members := cluster.members ++
            [newcomer cluster.authority.notice peer cluster.authority.nextPeer] } := by
  obtain ⟨peer, started, joined⟩ := bind_eq_ok.mp joined
  exact ⟨peer, started, (congrArg Prod.snd (Except.ok.inj joined)).symm⟩

/-- The peers that have joined differ in their numbers only. -/
theorem joinMany_eq_ok {cluster after : Cluster W} {start : Tick} {count : Nat}
    (joined : joinMany start count cluster = .ok after) :
    after.template = cluster.template ∧
      after.authority = { cluster.authority with nextPeer := after.authority.nextPeer } ∧
      after.members.length = cluster.members.length + count ∧
      ∀ member ∈ after.members, member ∈ cluster.members ∨
        ∃ peer id, cluster.template.start start = .ok peer ∧
            member = newcomer cluster.authority.notice peer id := by
  induction count generalizing cluster with
  | zero =>
    cases joined
    exact ⟨rfl, rfl, rfl, fun _ => .inl⟩
  | succ count ih =>
    obtain ⟨⟨id, middle⟩, one, rest⟩ := bind_eq_ok.mp joined
    obtain ⟨peer, started, rfl⟩ := join_eq_ok one
    obtain ⟨template, authority, length, members⟩ := ih rest
    refine ⟨template, authority, ?_, fun member present => ?_⟩
    · rw [length, List.length_append, List.length_singleton]
      omega
    · rcases members member present with before | ⟨peer, id, started, rfl⟩
      · rcases List.mem_append.mp before with before | new
        · exact .inl before
        · exact .inr ⟨peer, _, started, List.mem_singleton.mp new⟩
      · exact .inr ⟨peer, id, started, rfl⟩

/-- A new cluster: its authority is at the first tick, and its peers are bare newcomers. -/
theorem create_eq_ok {template : Template W} {peers : Nat} {cluster : Cluster W}
    (created : Cluster.create template peers = .ok cluster) :
    template.config.validate = .ok () ∧ cluster.template = template ∧
      cluster.authority =
        { Authority.ofConfig template.config with nextPeer := cluster.authority.nextPeer } ∧
      cluster.members.length = peers ∧
      ∀ member ∈ cluster.members, ∃ peer id, template.start 0 = .ok peer ∧
          member = newcomer (.tickLimit 0) peer id := by
  obtain ⟨_, valid, joined⟩ := bind_eq_ok.mp created
  obtain ⟨same, authority, length, members⟩ := joinMany_eq_ok joined
  refine ⟨mapError_eq_ok.mp valid, same, authority, by simpa using length, ?_⟩
  intro member present
  exact (members member present).resolve_left nofun

/-- The peers of a new cluster have the same scopes; without peers any scopes will do. -/
theorem create_alike {template : Template W} {peers : Nat} {cluster : Cluster W}
    (created : Cluster.create template peers = .ok cluster) :
    ∃ scopes, template.StartsAt 0 scopes ∧ ∀ member ∈ cluster.members,
      ∃ id, member = newcomer (.tickLimit 0) (template.bare scopes) id := by
  obtain ⟨-, -, -, -, members⟩ := create_eq_ok created
  cases started : template.start 0 with
  | error error =>
    refine ⟨.empty, fun _ _ impossible => ?_, fun member present => ?_⟩
    · cases impossible
    · obtain ⟨_, _, impossible, _⟩ := members member present
      cases started.symm.trans impossible
  | ok peer =>
    obtain ⟨-, scopes, rfl, starts⟩ := Template.start_eq_ok started
    refine ⟨scopes, starts, ?_⟩
    intro member present
    obtain ⟨peer, id, other, rfl⟩ := members member present
    cases started.symm.trans other
    exact ⟨id, rfl⟩

theorem joinMany_eq_error {cluster : Cluster W} {start : Tick} {count : Nat} {error : SetupError}
    (failed : joinMany start count cluster = .error error) :
    cluster.template.start start = .error error := by
  induction count generalizing cluster with
  | zero => cases failed
  | succ count ih =>
    rcases bind_eq_error.mp failed with failed | ⟨⟨id, middle⟩, joined, failed⟩
    · rcases bind_eq_error.mp failed with failed | ⟨_, _, impossible⟩
      · exact failed
      · cases impossible
    · obtain ⟨_, _, same⟩ := join_eq_ok joined
      have later : middle.template.start start = .error error := ih failed
      rw [same] at later
      exact later

/-- Under accepted settings, and with scopes that are neither global nor named twice, a cluster can
only want memory. -/
theorem create_eq_error {template : Template W} {peers : Nat} {error : SetupError}
    (accepted : template.config.validate = .ok ()) (distinct : template.scopes.Nodup)
    (mapped : .global ∉ template.scopes) (failed : Cluster.create template peers = .error error) :
    ∃ breakdown, error = .brokeDown breakdown ∧ template.config.Exceeds breakdown := by
  rcases bind_eq_error.mp failed with refused | ⟨_, -, failed⟩
  · obtain ⟨_, impossible, _⟩ := mapError_eq_error.mp refused
    cases accepted.symm.trans impossible
  · exact Peer.create_eq_error accepted
      (Template.start_eq_error distinct mapped (joinMany_eq_error failed))

end Cluster

end Lockstep
