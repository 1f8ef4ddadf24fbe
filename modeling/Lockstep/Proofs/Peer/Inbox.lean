import Lockstep.Peer.Inbox

/-! # What is posted

A message that finds room comes behind those that wait; one that finds none is lost.
-/

namespace Lockstep.Inbox

/-- What is sent comes behind those that wait. -/
theorem send_eq_ok {inbox after : Inbox} {message : Inbound}
    (sent : inbox.send message = .ok after) :
    after = { inbox with messages := inbox.messages ++ [message] } := by
  rw [send] at sent
  split at sent
  next => cases sent
  next =>
    split at sent
    next => exact (Except.ok.inj sent).symm
    next => cases sent

theorem post_of_room {inbox : Inbox} (listening : inbox.isClosed = false)
    (room : inbox.messages.length < inbox.capacity) (message : Inbound) :
    inbox.post (.ok message) = { inbox with messages := inbox.messages ++ [message] } := by
  have sent : (Except.ok message >>= inbox.send : Except TransportError Inbox) =
      .ok { inbox with messages := inbox.messages ++ [message] } := by
    change inbox.send message = _
    rw [Inbox.send, listening, if_neg Bool.false_ne_true, if_pos room]
  rw [post, sent]

/-- Messages that find room come behind those that wait. -/
theorem foldl_post_of_room {inbox : Inbox} {messages : List Inbound}
    (listening : inbox.isClosed = false)
    (room : inbox.messages.length + messages.length ≤ inbox.capacity) :
    messages.foldl (fun inbox message => inbox.post (.ok message)) inbox =
      { inbox with messages := inbox.messages ++ messages } := by
  induction messages generalizing inbox with
  | nil => rw [List.append_nil, List.foldl_nil]
  | cons message messages ih =>
    rw [List.length_cons] at room
    rw [List.foldl_cons, post_of_room listening (by omega)]
    have rest : inbox.messages.length + 1 + messages.length ≤ inbox.capacity := by omega
    rw [ih (by exact listening) (by simpa using rest), List.append_assoc, List.singleton_append]

/-- A message that is posted stands last, or is lost. -/
theorem post_cases (inbox : Inbox) (message : Inbound) :
    inbox.post (.ok message) = { inbox with messages := inbox.messages ++ [message] } ∨
      inbox.post (.ok message) = inbox := by
  have posted :
    (Except.ok message >>= inbox.send : Except TransportError Inbox) = inbox.send message := rfl
  rw [post, posted]
  cases sent : inbox.send message with
  | ok after => exact .inl (send_eq_ok sent)
  | error error => exact .inr rfl

/-- Put messages into an inbox as far as there is room. -/
def postAll (messages : List Inbound) (inbox : Inbox) : Inbox :=
  messages.foldl (fun inbox message => inbox.post (.ok message)) inbox

/-- Those that were there stay, and those that come are among the messages posted. -/
theorem messages_postAll (messages : List Inbound) (inbox : Inbox) :
    ∃ arrived, (inbox.postAll messages).messages = inbox.messages ++ arrived ∧
      ∀ message ∈ arrived, message ∈ messages := by
  induction messages generalizing inbox with
  | nil => exact ⟨[], (List.append_nil _).symm, fun _ member => member⟩
  | cons message messages ih =>
    obtain ⟨arrived, same, among⟩ := ih (inbox.post (.ok message))
    rcases post_cases inbox message with last | lost
    · refine ⟨message :: arrived, ?_, fun other member => ?_⟩
      · rw [postAll, List.foldl_cons, ← postAll, same, last, List.append_assoc]
        rfl
      · rcases List.mem_cons.mp member with rfl | member
        · exact List.mem_cons_self
        · exact List.mem_cons_of_mem _ (among other member)
    · refine ⟨arrived, ?_, fun other member => List.mem_cons_of_mem _ (among other member)⟩
      rw [lost] at same
      rw [postAll, List.foldl_cons, lost]
      exact same

end Lockstep.Inbox
