import Lockstep.SortedMap

/-! # Ticks, scopes and identifiers

A simulation is split into scopes: one global scope and any number of maps. Each scope counts its own
ticks. On the wire a scope is a signed word, `-1` for the global scope and the map number otherwise,
so a map number above the largest signed word has no exact wire form and is clamped.
-/

namespace Lockstep

/-- The number of a simulated tick of one scope. -/
abbrev Tick := UInt32

/-- The position of a handler in its table. -/
abbrev HandlerId := UInt32

abbrev EntityId := UInt32

abbrev SessionId := UInt32

abbrev DefinitionId := UInt16

/-- The number of a peer of the cluster. -/
abbrev PeerId := UInt32

/-- The tick `n` later; the last tick is its own successor. -/
def Tick.offset (tick : Tick) (n : UInt32) : Tick :=
  UInt32.ofNat (min (tick.toNat + n.toNat) (UInt32.size - 1))

def Tick.next (tick : Tick) : Tick := Tick.offset tick 1

theorem Tick.toNat_offset (tick : Tick) (n : UInt32) :
    (tick.offset n).toNat = min (tick.toNat + n.toNat) (UInt32.size - 1) := by
  have small : min (tick.toNat + n.toNat) (UInt32.size - 1) < UInt32.size := by
    have pos : 0 < UInt32.size := by decide
    omega
  exact UInt32.toNat_ofNat_of_lt' small

theorem Tick.toNat_next {tick : Tick} (inside : tick.toNat + 1 < UInt32.size) :
    tick.next.toNat = tick.toNat + 1 := by
  rw [Tick.next, Tick.toNat_offset]
  have one : (1 : UInt32).toNat = 1 := rfl
  omega

theorem Tick.le_toNat_next (tick : Tick) : tick.toNat ≤ tick.next.toNat := by
  have bound : tick.toNat < UInt32.size := tick.toNat_lt
  rw [Tick.next, Tick.toNat_offset]
  omega

/-- What a peer is called in messages. -/
def PeerId.display (peer : PeerId) : String := "peer#" ++ toString peer.toNat

/-- A part of the simulation with a clock and a random stream of its own. -/
inductive ScopeId where
  | global
  | map (id : UInt32)
  deriving DecidableEq, Repr, Inhabited

namespace ScopeId

/-- The global scope comes first, then the maps by number. -/
def rank : ScopeId → Nat
  | global => 0
  | map id => id.toNat + 1

theorem rank_injective {a b : ScopeId} (h : a.rank = b.rank) : a = b := by
  cases a with
  | global => cases b with
    | global => rfl
    | map _ => simp [rank] at h
  | map a => cases b with
    | global => simp [rank] at h
    | map b =>
      simp only [rank, Nat.add_right_cancel_iff] at h
      rw [UInt32.toNat_inj.mp h]

instance : Ord ScopeId := ⟨fun a b => compare a.rank b.rank⟩

theorem compare_eq_rank (a b : ScopeId) : compare a b = compare a.rank b.rank := rfl

instance : Std.TransOrd ScopeId where
  eq_swap := fun {a b} => by
    rw [compare_eq_rank, compare_eq_rank]
    exact Std.OrientedCmp.eq_swap
  isLE_trans := fun {a b c} ab bc => by
    rw [compare_eq_rank] at ab bc ⊢
    exact Std.TransCmp.isLE_trans ab bc

instance : Std.LawfulEqOrd ScopeId where
  compare_self := fun {a} => by rw [compare_eq_rank]; exact Std.ReflCmp.compare_self
  eq_of_compare := fun {a b} same =>
    rank_injective (Std.LawfulEqCmp.eq_of_compare (by rwa [compare_eq_rank] at same))

/-- The largest map number with an exact wire form. -/
def maxWireMap : UInt32 := 0x7fffffff

/-- The signed word that stands for a scope: `-1` or the map number, clamped to the signed range. -/
def toWire : ScopeId → Int32
  | global => -1
  | map id => (min id maxWireMap).toInt32

/-- The scope that a signed word stands for. -/
def ofWire? (raw : Int32) : Option ScopeId :=
  if raw = -1 then some global
  else if 0 ≤ raw then some (map raw.toUInt32)
  else none

/-- Whether the wire form stands for exactly this scope. -/
def isRepresentable : ScopeId → Bool
  | global => true
  | map id => id ≤ maxWireMap

def isGlobal : ScopeId → Bool
  | global => true
  | map _ => false

/-- What a scope is called in messages. -/
def display : ScopeId → String
  | global => "global"
  | map id => "map#" ++ toString id.toNat

end ScopeId

end Lockstep
