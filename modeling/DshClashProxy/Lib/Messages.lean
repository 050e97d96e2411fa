import DshClashProxy.Lib.ByteSource

/-!
# Messages through a pipe

A sender turns messages into bytes, and a receiver reads them by exact counts off what is in
flight. Where the two agree, every order of sends and receives delivers the messages in the order
in which they were sent, each once, and the receiver rejects nothing.
-/
namespace DshClashProxy.Lib.Messages

open Lib.ByteSource

/-- The two ends, each with a state. A sender may refuse a message. -/
structure Codec (α ε ι : Type) where
  Sender : Type
  Receiver : Type
  encode : Sender → ι → Option (List α × Sender)
  decode : Receiver → (Source.ofList α).Reads ε (ι × Receiver)

/-- Two ends in step: the receiver waits while nothing is in flight, and reads back the next message
that the sender takes. -/
structure Codec.Agree {α ε ι : Type} (c : Codec α ε ι) where
  InStep : c.Sender → c.Receiver → Prop
  waits : ∀ {e d}, InStep e d → c.decode d [] = none
  carries : ∀ {e e' d i b}, InStep e d → c.encode e i = some (b, e') →
    ∃ d', Source.Consumes (c.decode d) b (i, d') ∧ InStep e' d'

variable {α ε ι : Type} {c : Codec α ε ι}

/-- A pipe, with the messages sent and received so far. -/
structure Pipe (c : Codec α ε ι) where
  sender : c.Sender
  receiver : c.Receiver
  flight : List α := []
  sent : List ι := []
  received : List ι := []
  rejected : Option ε := none

namespace Pipe

def send (p : Pipe c) (i : ι) : Pipe c :=
  match c.encode p.sender i with
  | none => p
  | some (b, sender) => { p with sender, flight := p.flight ++ b, sent := p.sent ++ [i] }

def sendAll (p : Pipe c) (is : List ι) : Pipe c := is.foldl send p

/-- The next message, if all of it is there. -/
def receive (p : Pipe c) : Pipe c :=
  match c.decode p.receiver p.flight with
  | none => p
  | some (.error e, flight) => { p with flight, rejected := some e }
  | some (.ok (i, receiver), flight) =>
      { p with receiver, flight, received := p.received ++ [i] }

theorem send_receiver (p : Pipe c) (i : ι) : (p.send i).receiver = p.receiver ∧
    (p.send i).received = p.received ∧ (p.send i).rejected = p.rejected := by
  rw [send]
  split <;> exact ⟨rfl, rfl, rfl⟩

theorem sendAll_received (p : Pipe c) (is : List ι) : (p.sendAll is).received = p.received := by
  induction is generalizing p with
  | nil => rfl
  | cons i rest ih => exact (ih (p.send i)).trans (p.send_receiver i).2.1

theorem receive_sender (p : Pipe c) : p.receive.sender = p.sender ∧ p.receive.sent = p.sent := by
  rw [receive]
  split <;> exact ⟨rfl, rfl⟩

end Pipe

/-! ## Order -/

/-- What is in flight reads as these messages, and then the two ends are in step. -/
inductive Pending (agree : c.Agree) : c.Receiver → List ι → List α → c.Sender → Prop where
  | caughtUp {d : c.Receiver} {e : c.Sender} (h : agree.InStep e d) : Pending agree d [] [] e
  | message {d d' : c.Receiver} {i : ι} {b : List α} {is : List ι} {flight : List α}
      {e : c.Sender} (front : Source.Consumes (c.decode d) b (i, d'))
      (rest : Pending agree d' is flight e) : Pending agree d (i :: is) (b ++ flight) e

theorem Pending.snoc {agree : c.Agree} {d : c.Receiver} {is : List ι} {flight : List α}
    {e e' : c.Sender} (h : Pending agree d is flight e) {i : ι} {b : List α}
    (hsend : c.encode e i = some (b, e')) : Pending agree d (is ++ [i]) (flight ++ b) e' := by
  induction h with
  | caughtUp h =>
      obtain ⟨d', hd, hstep⟩ := agree.carries h hsend
      have hlast := Pending.message hd (.caughtUp hstep)
      rwa [List.append_nil] at hlast
  | message front rest ih =>
      rw [List.cons_append, List.append_assoc]
      exact .message front (ih hsend)

/-- The messages that were sent and not received are the ones in flight, and the receiver has
rejected nothing. -/
structure Ordered (agree : c.Agree) (p : Pipe c) (pending : List ι) : Prop where
  inOrder : p.sent = p.received ++ pending
  inFlight : Pending agree p.receiver pending p.flight p.sender
  accepted : p.rejected = none

namespace Ordered
variable {agree : c.Agree} {p : Pipe c} {pending : List ι}

/-- A send puts its message behind the others, or is refused. -/
theorem send (h : Ordered agree p pending) (i : ι) :
    (∃ b e, c.encode p.sender i = some (b, e) ∧ (p.send i).sent = p.sent ++ [i] ∧
        (p.send i).sender = e ∧ Ordered agree (p.send i) (pending ++ [i])) ∨
      (c.encode p.sender i = none ∧ p.send i = p) := by
  cases he : c.encode p.sender i with
  | none =>
      refine .inr ⟨rfl, ?_⟩
      rw [Pipe.send, he]
  | some r =>
      obtain ⟨b, e⟩ := r
      have hsend : p.send i =
          { p with sender := e, flight := p.flight ++ b, sent := p.sent ++ [i] } := by
        rw [Pipe.send, he]
      refine .inl ⟨b, e, rfl, by rw [hsend], by rw [hsend], ?_⟩
      rw [hsend]
      exact ⟨by rw [h.inOrder, List.append_assoc], h.inFlight.snoc he, h.accepted⟩

theorem send_ordered (h : Ordered agree p pending) (i : ι) :
    ∃ pending, Ordered agree (p.send i) pending := by
  rcases h.send i with ⟨-, -, -, -, -, hs⟩ | ⟨-, hs⟩
  · exact ⟨_, hs⟩
  · exact ⟨pending, by rw [hs]; exact h⟩

theorem sendAll_ordered (h : Ordered agree p pending) (is : List ι) :
    ∃ pending, Ordered agree (p.sendAll is) pending := by
  induction is generalizing p pending with
  | nil => exact ⟨pending, h⟩
  | cons i rest ih =>
      obtain ⟨pending, hs⟩ := h.send_ordered i
      exact ih hs

/-- With nothing in flight the receiver waits. -/
theorem receive_waits (h : Ordered agree p []) : p.receive = p := by
  have hwait : c.decode p.receiver p.flight = none := by
    have hpending := h.inFlight
    generalize p.flight = flight at hpending
    cases hpending with
    | caughtUp hstep => exact agree.waits hstep
  rw [Pipe.receive, hwait]

/-- With messages in flight it gets the first of them. -/
theorem receive_next {i : ι} (h : Ordered agree p (i :: pending)) :
    p.receive.received = p.received ++ [i] ∧ Ordered agree p.receive pending := by
  obtain ⟨d', b, flight, hflight, hfront, hrest⟩ : ∃ d' b flight, p.flight = b ++ flight ∧
      Source.Consumes (c.decode p.receiver) b (i, d') ∧
      Pending agree d' pending flight p.sender := by
    have hpending := h.inFlight
    generalize p.flight = flight at hpending
    cases hpending with
    | message front rest => exact ⟨_, _, _, rfl, front, rest⟩
  obtain ⟨s, hs, hc⟩ := hfront p.flight flight hflight
  obtain rfl : s = flight := hc
  have hreceive : p.receive =
      { p with receiver := d', flight := s, received := p.received ++ [i] } := by
    rw [Pipe.receive, hs]
  rw [hreceive]
  refine ⟨rfl, ?_, hrest, h.accepted⟩
  rw [h.inOrder, List.append_assoc]
  rfl

theorem receive_ordered (h : Ordered agree p pending) :
    ∃ pending, Ordered agree p.receive pending := by
  cases pending with
  | nil => exact ⟨[], by rw [h.receive_waits]; exact h⟩
  | cons i pending => exact ⟨pending, h.receive_next.2⟩

/-- What was received is the front of what was sent. -/
theorem received_front (h : Ordered agree p pending) : p.received <+: p.sent :=
  ⟨pending, h.inOrder.symm⟩

end Ordered

end DshClashProxy.Lib.Messages
