import Lockstep.Journal.Reader
import Lockstep.Peer.Tick

/-! # Recording and replaying

A scope can be recorded from any tick on. Replaying the journal puts the scope's stream where it stood,
runs each recorded tick with the recorded commands and compares where the stream stands with what was
recorded, up to the first tick that differs.
-/

namespace Lockstep.Peer

variable {W : Type}

/-- Start a journal of a scope. -/
def startJournal (peer : Peer W) (scope : ScopeId) : Except PeerError (Peer W) :=
  match peer.scopes.get? scope with
  | none => .error (.unknownScope scope)
  | some state =>
    let journal := some { scope, initial := state.stream.state }
    .ok { peer with scopes := peer.scopes.insert scope { state with journal } }

/-- End the journal of a scope; the answer is its bytes. -/
def takeJournal (peer : Peer W) (scope : ScopeId) : Option Bytes × Peer W :=
  (((peer.scopes.get? scope).bind (·.journal)).map (·.bytes),
    { peer with scopes := peer.scopes.modify scope fun state => { state with journal := none } })

variable [World W]

/-- Run one recorded tick; the answer says whether the stream stands where it was recorded. -/
def replayFrame (peer : Peer W) (scope : ScopeId) (state : ScopeState) (frame : JournalFrame) :
    Bool × Peer W :=
  let state := { state with
    next := frame.tick
    queue := frame.commands.foldl CommandQueue.push state.queue }
  let done := peer.simulate scope state
  (done.state.stream.state == frame.state,
    { peer with world := done.world, scopes := peer.scopes.insert scope done.state })

/-- Run recorded ticks one after another, after `matched` that have matched. -/
def replayFrames (scope : ScopeId) :
    List JournalFrame → Nat → Peer W → Except PeerError (ReplayOutcome × Peer W)
  | [], matched, peer => .ok (.matched matched, peer)
  | frame :: frames, matched, peer =>
    match peer.scopes.get? scope with
    | none => .error (.unknownScope scope)
    | some state =>
      match peer.replayFrame scope state frame with
      | (true, peer) => replayFrames scope frames (matched + 1) peer
      | (false, peer) => .ok (.diverged frame.tick matched, peer)

/-- Replay the bytes of a journal. A bad frame ends the replay with an error, after the ticks before it. -/
def replay (peer : Peer W) (bytes : Bytes) : Except PeerError ReplayOutcome × Peer W :=
  match JournalReader.openJournal bytes with
  | .error error => (.error (.journal error), peer)
  | .ok reader =>
    match peer.scopes.get? reader.scope with
    | none => (.error (.unknownScope reader.scope), peer)
    | some state =>
      let state := { state with stream := state.stream.restore reader.initial, queue := .empty }
      let peer := { peer with scopes := peer.scopes.insert reader.scope state }
      let (frames, error) := reader.frames
      match replayFrames reader.scope frames 0 peer with
      | .error error => (.error error, peer)
      | .ok (.diverged tick matched, peer) => (.ok (.diverged tick matched), peer)
      | .ok (.matched matched, peer) =>
        match error with
        | some error => (.error (.journal (.format error)), peer)
        | none => (.ok (.matched matched), peer)

end Lockstep.Peer
