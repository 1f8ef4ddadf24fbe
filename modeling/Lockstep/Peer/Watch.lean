import Lockstep.Peer.Basic

/-! # Watches of a peer

A peer's watches act on its own world and buffer; a flush sends buffered changes as captured commands.
-/

namespace Lockstep.Peer

variable {W : Type}

/-- Run an action of watches on the peer's buffer and world. -/
def watching {α : Type} (peer : Peer W) (action : Watching W α) : Except WatchError α × Peer W :=
  let (result, watched) := Watching.run action { buffer := peer.buffer, world := peer.world }
  (result, { peer with buffer := watched.buffer, world := watched.world })

/-- Open a watch. -/
def beginWatch (peer : Peer W) (handle : Handle) (scope : ScopeId) (target : Value) (index : Option Int32) :
    Except WatchError Nat × Peer W :=
  peer.watching (ChangeBuffer.beginWatch peer.table handle scope target index)

/-- Close a watch. Time is in milliseconds. -/
def endWatch (peer : Peer W) (serial now : Nat) : Except WatchError WatchOutcome × Peer W :=
  peer.watching (ChangeBuffer.endWatch peer.table serial now peer.nextTick?)

/-- Edit the world while a watch is open. -/
def watch (peer : Peer W) (now : Nat) (handle : Handle) (scope : ScopeId) (target : Value)
    (index : Option Int32) (edit : W → W) : Except WatchError WatchOutcome × Peer W :=
  match peer.beginWatch handle scope target index with
  | (.error error, peer) => (.error error, peer)
  | (.ok serial, peer) => { peer with world := edit peer.world }.endWatch serial now

/-- Send the buffered changes that have waited long enough, or all of them; the answer is their number. -/
def flush (peer : Peer W) (now : Nat) (force : Bool) : Nat × Peer W :=
  let send (change : BufferedChange) : Except CaptureError Outbound :=
    PendingCommand.message <$> peer.table.captureField peer.config.debugMode change.handle change.scope
      peer.ambient change.target change.index change.pending
  let (outcomes, buffer) := peer.buffer.flush peer.table peer.world now peer.nextTick?
    peer.config.flushInterval force send
  let messages := outcomes.filterMap Except.toOption
  (messages.length, { messages.foldl Peer.send peer with buffer })

end Lockstep.Peer
