import DshClashProxy.Js.Buffer
import DshClashProxy.Lib.ByteSource

/-!
# Inbound byte streams of the transports

A `SocketBuffer` collects what a socket receives. Requests queue behind one another and take
bytes from the front of one buffer. Once the socket has closed, requests are refused without
a look at the buffer, and the close itself refuses every request that waits. So nothing that
arrived is lost exactly when no refused request could have been served.
-/
namespace DshClashProxy.Core.Transports

open Js

inductive Request where
  | read (count : Nat)
  | readAny
  deriving DecidableEq

/-- A request with the identity of its promise. -/
structure Waiter where
  id : Nat
  request : Request
  deriving DecidableEq

inductive Outcome where
  | bytes (b : Bytes)
  | null
  | rejected (message : Text)
  deriving DecidableEq

structure Settlement where
  waiter : Waiter
  outcome : Outcome
  deriving DecidableEq

structure SocketBuffer where
  buffer : Bytes := []
  waiters : List Waiter := []
  ended : Bool := false
  error : Option Text := none
  deriving DecidableEq

inductive Event where
  | data (chunk : Bytes)
  | close
  | error (message : Text)
  | call (waiter : Waiter)
  deriving DecidableEq

/-- Serve waiting requests in order, as far as the buffer reaches. -/
def flush : Bytes → List Waiter → Bytes × List Waiter × List Settlement
  | buffer, [] => (buffer, [], [])
  | buffer, w :: rest =>
      match w.request with
      | .readAny =>
          if buffer.isEmpty then (buffer, w :: rest, [])
          else
            let (left, waiting, settled) := flush [] rest
            (left, waiting, ⟨w, .bytes buffer⟩ :: settled)
      | .read count =>
          if buffer.length < count then (buffer, w :: rest, [])
          else
            let (left, waiting, settled) := flush (buffer.drop count) rest
            (left, waiting, ⟨w, .bytes (buffer.take count)⟩ :: settled)

def SocketBuffer.flushed (s : SocketBuffer) : SocketBuffer × List Settlement :=
  let (buffer, waiters, settled) := flush s.buffer s.waiters
  ({ s with buffer, waiters }, settled)

/-- How the close event settles a waiting request. -/
def closing (w : Waiter) : Settlement :=
  match w.request with
  | .readAny => ⟨w, .null⟩
  | .read _ => ⟨w, .rejected "connection closed while reading".toList⟩

/-- How a request made after the close is settled. -/
def refusal (w : Waiter) : Settlement :=
  match w.request with
  | .readAny => ⟨w, .null⟩
  | .read _ => ⟨w, .rejected "connection closed".toList⟩

def SocketBuffer.step (s : SocketBuffer) : Event → SocketBuffer × List Settlement
  | .data chunk =>
      if s.ended then (s, []) else { s with buffer := s.buffer ++ chunk }.flushed
  | .close =>
      if s.ended then (s, []) else ({ s with ended := true, waiters := [] }, s.waiters.map closing)
  | .error message =>
      ({ s with error := some message, waiters := [] },
        s.waiters.map fun w => ⟨w, .rejected message⟩)
  | .call w =>
      if s.ended then (s, [refusal w]) else { s with waiters := s.waiters ++ [w] }.flushed

/-- The state a history leads to, and the settlements it causes. -/
def runFrom (s : SocketBuffer) : List Event → SocketBuffer × List Settlement
  | [] => (s, [])
  | e :: rest =>
      let (s', settled) := s.step e
      let (final, later) := runFrom s' rest
      (final, settled ++ later)

def run (events : List Event) : SocketBuffer × List Settlement := runFrom {} events

/-! ## Histories -/

/-- The bytes that arrive before the close. -/
def received : List Event → Bytes
  | [] => []
  | .data chunk :: rest => chunk ++ received rest
  | .close :: _ => []
  | .error _ :: rest => received rest
  | .call _ :: rest => received rest

def Outcome.payload : Outcome → Bytes
  | .bytes b => b
  | _ => []

/-- The bytes handed to requests. -/
def delivered (settled : List Settlement) : Bytes := settled.flatMap (·.outcome.payload)

/-- The bytes that have arrived and have been handed to no request. -/
def undelivered (events : List Event) : Bytes :=
  (received events).drop (delivered (run events).2).length

def Request.servable (bytes : Bytes) : Request → Prop
  | .read count => count ≤ bytes.length
  | .readAny => bytes ≠ []

instance (bytes : Bytes) : (r : Request) → Decidable (r.servable bytes)
  | .read count => inferInstanceAs (Decidable (count ≤ bytes.length))
  | .readAny => inferInstanceAs (Decidable (bytes ≠ []))

/-- What a servable request resolves with. -/
def Request.share (bytes : Bytes) : Request → Bytes
  | .read count => bytes.take count
  | .readAny => bytes

/-- Every byte that arrives before the close is still delivered. -/
structure LosesNothing (events : List Event) : Prop where
  /-- Requests get the received bytes in order. -/
  ordered : delivered (run events).2 <+: received events
  /-- A read resolves with as many bytes as it asked for, and `readAny` with some. -/
  sized : ∀ t ∈ (run events).2, ∀ b, t.outcome = .bytes b →
    t.waiter.request.servable b ∧ t.waiter.request.share b = b
  /-- A request made when none waits and enough is undelivered resolves with its share. -/
  prompt : ∀ before w after, events = before ++ .call w :: after →
    (run before).1.waiters = [] → w.request.servable (undelivered before) →
    ((run before).1.step (.call w)).2 = [⟨w, .bytes (w.request.share (undelivered before))⟩]
  /-- A request is refused only when too little is undelivered. -/
  refused : ∀ before e after, events = before ++ e :: after →
    ∀ t ∈ ((run before).1.step e).2, (∀ b, t.outcome ≠ .bytes b) →
      ¬ t.waiter.request.servable (undelivered (before ++ [e]))

/-- The event refuses no request that the buffer could serve. -/
def SocketBuffer.Spares (s : SocketBuffer) : Event → Prop
  | .data _ => True
  | .close => s.ended = false → ∀ w ∈ s.waiters, ¬ w.request.servable s.buffer
  | .error _ => ∀ w ∈ s.waiters, ¬ w.request.servable s.buffer
  | .call w => s.ended = true → ¬ w.request.servable s.buffer

theorem runFrom_append (s : SocketBuffer) (a b : List Event) :
    runFrom s (a ++ b) = ((runFrom (runFrom s a).1 b).1, (runFrom s a).2 ++
      (runFrom (runFrom s a).1 b).2) := by
  induction a generalizing s with
  | nil => rfl
  | cons e rest ih => simp [runFrom, ih]

theorem run_snoc (events : List Event) (e : Event) :
    run (events ++ [e]) =
      (((run events).1.step e).1, (run events).2 ++ ((run events).1.step e).2) := by
  simp [run, runFrom_append, runFrom]

@[simp] theorem delivered_append (a b : List Settlement) :
    delivered (a ++ b) = delivered a ++ delivered b := List.flatMap_append

/-! ## Accounting -/

/-- Serving requests only moves bytes from the buffer to them. -/
theorem flush_bytes (buffer : Bytes) (waiters : List Waiter) :
    delivered (flush buffer waiters).2.2 ++ (flush buffer waiters).1 = buffer := by
  induction waiters generalizing buffer with
  | nil => rfl
  | cons w rest ih =>
      cases hr : w.request with
      | readAny =>
          by_cases hb : buffer.isEmpty = true
          · simp [flush, hr, hb, delivered]
          · have h := ih []
            simp only [flush, hr, hb, Bool.false_eq_true, if_false, delivered, List.flatMap_cons,
              Outcome.payload, List.append_assoc] at h ⊢
            rw [h, List.append_nil]
      | read count =>
          by_cases hb : buffer.length < count
          · simp [flush, hr, hb, delivered]
          · have h := ih (buffer.drop count)
            simp only [flush, hr, hb, if_false, delivered, List.flatMap_cons, Outcome.payload,
              List.append_assoc] at h ⊢
            rw [h, List.take_append_drop]

theorem closing_waiter (w : Waiter) : (closing w).waiter = w := by
  unfold closing; cases w.request <;> rfl

theorem closing_outcome (w : Waiter) (b : Bytes) : (closing w).outcome ≠ .bytes b := by
  unfold closing; cases w.request <;> simp

theorem refusal_waiter (w : Waiter) : (refusal w).waiter = w := by
  unfold refusal; cases w.request <;> rfl

theorem refusal_outcome (w : Waiter) (b : Bytes) : (refusal w).outcome ≠ .bytes b := by
  unfold refusal; cases w.request <;> simp

theorem delivered_refusals (f : Waiter → Settlement) (hf : ∀ w b, (f w).outcome ≠ .bytes b)
    (waiters : List Waiter) : delivered (waiters.map f) = [] := by
  have hp : ∀ w, (f w).outcome.payload = [] := by
    intro w
    cases ho : (f w).outcome with
    | bytes b => exact absurd ho (hf w b)
    | null => rfl
    | rejected message => rfl
  simp [delivered, hp]

/-- The bytes an event adds to what has arrived. -/
def arriving (s : SocketBuffer) : Event → Bytes
  | .data chunk => if s.ended then [] else chunk
  | _ => []

theorem step_bytes (s : SocketBuffer) (e : Event) :
    delivered (s.step e).2 ++ (s.step e).1.buffer = s.buffer ++ arriving s e := by
  cases e with
  | data chunk =>
      by_cases he : s.ended = true
      · simp [SocketBuffer.step, he, delivered, arriving]
      · simpa [SocketBuffer.step, he, SocketBuffer.flushed, arriving] using
          flush_bytes (s.buffer ++ chunk) s.waiters
  | close =>
      by_cases he : s.ended = true
      · simp [SocketBuffer.step, he, delivered, arriving]
      · have hd := delivered_refusals closing closing_outcome s.waiters
        simp [SocketBuffer.step, he, arriving, hd]
  | error message =>
      have hd := delivered_refusals (fun w => ⟨w, .rejected message⟩) (by simp) s.waiters
      simp [SocketBuffer.step, arriving, hd]
  | call w =>
      by_cases he : s.ended = true
      · have hd := delivered_refusals refusal refusal_outcome [w]
        rw [List.map_singleton] at hd
        simp [SocketBuffer.step, he, arriving, hd]
      · simpa [SocketBuffer.step, he, SocketBuffer.flushed, arriving] using
          flush_bytes s.buffer (s.waiters ++ [w])

theorem step_ended (s : SocketBuffer) (e : Event) :
    (s.step e).1.ended = (s.ended || decide (e = .close)) := by
  cases e with
  | error message => simp [SocketBuffer.step]
  | data chunk | close | call w =>
      by_cases he : s.ended = true
      · simp [SocketBuffer.step, he]
      · simp [SocketBuffer.step, SocketBuffer.flushed, he]

theorem received_append (a b : List Event) :
    received (a ++ b) = received a ++ if Event.close ∈ a then [] else received b := by
  induction a with
  | nil => simp [received]
  | cons e rest ih => cases e <;> simp [received, ih]

theorem ended_iff (events : List Event) : (run events).1.ended = true ↔ .close ∈ events := by
  induction events using List.reverseRecOn with
  | nil => simp [run, runFrom]
  | append_singleton events e ih =>
      rw [run_snoc, step_ended, Bool.or_eq_true, ih, List.mem_append, List.mem_singleton,
        decide_eq_true_eq]
      exact or_congr_right eq_comm

/-- What has arrived is what requests have been handed, followed by the buffer. -/
theorem delivered_buffer (events : List Event) :
    delivered (run events).2 ++ (run events).1.buffer = received events := by
  induction events using List.reverseRecOn with
  | nil => rfl
  | append_singleton events e ih =>
      have hs := step_bytes (run events).1 e
      have hend := ended_iff events
      have harr : arriving (run events).1 e =
          if Event.close ∈ events then [] else received [e] := by
        by_cases hc : Event.close ∈ events
        · rw [if_pos hc]; cases e <;> simp [arriving, hend.mpr hc]
        · have hn : (run events).1.ended = false := by
            rw [← Bool.not_eq_true]; exact fun h => hc (hend.mp h)
          rw [if_neg hc]; cases e <;> simp [arriving, hn, received]
      rw [run_snoc, received_append, delivered_append, List.append_assoc, hs, ← ih, harr,
        List.append_assoc]

theorem undelivered_eq (events : List Event) : undelivered events = (run events).1.buffer := by
  rw [undelivered, ← delivered_buffer events, List.drop_left]

/-! ## Serving -/

/-- Served requests got their share; those left waiting could not be served. -/
theorem flush_settles (buffer : Bytes) (waiters : List Waiter) :
    ∀ t ∈ (flush buffer waiters).2.2, ∃ b, t.outcome = .bytes b ∧
      t.waiter.request.servable b ∧ t.waiter.request.share b = b := by
  induction waiters generalizing buffer with
  | nil => simp [flush]
  | cons w rest ih =>
      intro t ht
      cases hr : w.request with
      | readAny =>
          by_cases hb : buffer.isEmpty = true
          · simp [flush, hr, hb] at ht
          · simp only [flush, hr, hb, Bool.false_eq_true, if_false, List.mem_cons] at ht
            rcases ht with rfl | ht
            · refine ⟨buffer, rfl, ?_⟩
              simpa [hr, Request.servable, Request.share] using hb
            · exact ih [] t ht
      | read count =>
          by_cases hb : buffer.length < count
          · simp [flush, hr, hb] at ht
          · simp only [flush, hr, hb, if_false, List.mem_cons] at ht
            rcases ht with rfl | ht
            · refine ⟨buffer.take count, rfl, ?_⟩
              have hl : (buffer.take count).length = count := by
                rw [List.length_take]; omega
              simp [hr, Request.servable, Request.share, hl]
            · exact ih _ t ht

/-- With none waiting, a servable request is served at once. -/
theorem flush_single {buffer : Bytes} {w : Waiter} (h : w.request.servable buffer) :
    (flush buffer [w]).2.2 = [⟨w, .bytes (w.request.share buffer)⟩] := by
  cases hr : w.request with
  | readAny =>
      rw [hr] at h
      simp [flush, hr, Request.share, show ¬ buffer = [] from h]
  | read count =>
      rw [hr] at h
      have hn : ¬ buffer.length < count := not_lt.mpr h
      simp [flush, hr, Request.share, hn]

/-- What a step settles was served its share, or refused by the close, by an error, or after
the close. -/
theorem step_settles {s : SocketBuffer} {e : Event} {t : Settlement} (ht : t ∈ (s.step e).2) :
    (∃ b, t.outcome = .bytes b ∧ t.waiter.request.servable b ∧ t.waiter.request.share b = b) ∨
    (∀ b, t.outcome ≠ .bytes b) ∧
      ((t.waiter ∈ s.waiters ∧ ((e = .close ∧ s.ended = false) ∨ ∃ m, e = .error m)) ∨
        (e = .call t.waiter ∧ s.ended = true)) := by
  cases e with
  | data chunk =>
      by_cases he : s.ended = true
      · simp [SocketBuffer.step, he] at ht
      · simp only [SocketBuffer.step, he, SocketBuffer.flushed, Bool.false_eq_true, if_false] at ht
        exact Or.inl (flush_settles _ _ t ht)
  | close =>
      by_cases he : s.ended = true
      · simp [SocketBuffer.step, he] at ht
      · simp only [SocketBuffer.step, he, Bool.false_eq_true, if_false, List.mem_map] at ht
        obtain ⟨w, hw, rfl⟩ := ht
        refine Or.inr ⟨closing_outcome w, Or.inl ⟨?_, Or.inl ⟨rfl, by simpa using he⟩⟩⟩
        rwa [closing_waiter]
  | error message =>
      simp only [SocketBuffer.step, List.mem_map] at ht
      obtain ⟨w, hw, rfl⟩ := ht
      exact Or.inr ⟨fun b => by simp, Or.inl ⟨hw, Or.inr ⟨message, rfl⟩⟩⟩
  | call w =>
      by_cases he : s.ended = true
      · simp only [SocketBuffer.step, he, if_true, List.mem_singleton] at ht
        subst ht
        exact Or.inr ⟨refusal_outcome w, Or.inr ⟨by rw [refusal_waiter], he⟩⟩
      · simp only [SocketBuffer.step, he, SocketBuffer.flushed, Bool.false_eq_true, if_false] at ht
        exact Or.inl (flush_settles _ _ t ht)

theorem step_refuses {s : SocketBuffer} {e : Event} {t : Settlement} (ht : t ∈ (s.step e).2)
    (hn : ∀ b, t.outcome ≠ .bytes b) :
    (t.waiter ∈ s.waiters ∧ ((e = .close ∧ s.ended = false) ∨ ∃ m, e = .error m)) ∨
      (e = .call t.waiter ∧ s.ended = true) := by
  rcases step_settles ht with ⟨b, hb, _⟩ | ⟨_, h⟩
  · exact absurd hb (hn b)
  · exact h

/-- An event that spares the servable refuses no servable request, and conversely. -/
theorem spares_iff (s : SocketBuffer) (e : Event) :
    s.Spares e ↔ ∀ t ∈ (s.step e).2, (∀ b, t.outcome ≠ .bytes b) →
      ¬ t.waiter.request.servable (s.step e).1.buffer := by
  constructor
  · intro h t ht hn
    rcases step_refuses ht hn with ⟨hw, ⟨rfl, he⟩ | ⟨m, rfl⟩⟩ | ⟨rfl, he⟩
    · simpa [SocketBuffer.step, he] using h he _ hw
    · simpa [SocketBuffer.step] using h _ hw
    · simpa [SocketBuffer.step, he] using h he
  · intro h
    cases e with
    | data chunk => trivial
    | close =>
        intro he w hw
        have := h (closing w) (by simp [SocketBuffer.step, he]; exact ⟨w, hw, rfl⟩)
          (closing_outcome w)
        simpa [SocketBuffer.step, he, closing_waiter] using this
    | error message =>
        intro w hw
        have := h ⟨w, .rejected message⟩ (by simp [SocketBuffer.step]; exact hw) (by simp)
        simpa [SocketBuffer.step] using this
    | call w =>
        intro he
        have := h (refusal w) (by simp [SocketBuffer.step, he]) (refusal_outcome w)
        simpa [SocketBuffer.step, he, refusal_waiter] using this

theorem settled_sized (events : List Event) : ∀ t ∈ (run events).2, ∀ b, t.outcome = .bytes b →
    t.waiter.request.servable b ∧ t.waiter.request.share b = b := by
  induction events using List.reverseRecOn with
  | nil => simp [run, runFrom]
  | append_singleton events e ih =>
      intro t ht b hb
      rw [run_snoc, List.mem_append] at ht
      rcases ht with ht | ht
      · exact ih t ht b hb
      · rcases step_settles ht with ⟨b', hb', hs⟩ | ⟨hn, _⟩
        · rw [hb] at hb'
          cases hb'
          exact hs
        · exact absurd hb (hn b)

/-- Nothing is lost exactly when no event refuses a request that the buffer could serve. -/
theorem losesNothing_iff (events : List Event) :
    LosesNothing events ↔
      ∀ before e after, events = before ++ e :: after → (run before).1.Spares e := by
  have hu : ∀ before e, undelivered (before ++ [e]) = ((run before).1.step e).1.buffer := by
    intro before e
    rw [undelivered_eq, run_snoc]
  constructor
  · intro h before e after heq
    rw [spares_iff]
    intro t ht hn
    have := h.refused before e after heq t ht hn
    rwa [hu] at this
  · intro h
    refine ⟨⟨_, delivered_buffer events⟩, settled_sized events, ?_, ?_⟩
    · intro before w after heq hw hs
      rw [undelivered_eq] at hs ⊢
      have he : (run before).1.ended = false := by
        rw [← Bool.not_eq_true]
        exact fun he => h before _ after heq he hs
      simp only [SocketBuffer.step, he, SocketBuffer.flushed, hw, Bool.false_eq_true, if_false,
        List.nil_append]
      exact flush_single hs
    · intro before e after heq t ht hn
      rw [hu]
      exact (spares_iff _ _).mp (h before e after heq) t ht hn

/-- Three bytes arrive, the socket closes, and `readAny` reports the end. -/
theorem close_drops_buffer : ¬ ∀ events, LosesNothing events := by
  intro h
  have hs := (losesNothing_iff _).mp (h [.data [1, 2, 3], .close, .call ⟨0, .readAny⟩])
    [.data [1, 2, 3], .close] (.call ⟨0, .readAny⟩) [] rfl
  exact hs rfl (by decide)

/-! ## Byte sources -/

open Lib.ByteSource

/-- A byte source over the chunks an iterator has still to yield. -/
structure IterableSource where
  pending : Bytes := []
  iterator : List Bytes
  deriving DecidableEq

/-- `iterableSource(iterable)` -/
def iterableSource (iterable : List Bytes) : IterableSource := { iterator := iterable }

def IterableSource.readFrom (count : Nat) : Bytes → List Bytes → Except Text Bytes × IterableSource
  | pending, [] =>
      if pending.length < count then
        (.error "connection closed while reading".toList, ⟨pending, []⟩)
      else (.ok (pending.take count), ⟨pending.drop count, []⟩)
  | pending, value :: rest =>
      if pending.length < count then readFrom count (pending ++ value) rest
      else (.ok (pending.take count), ⟨pending.drop count, value :: rest⟩)

def IterableSource.read (s : IterableSource) (count : Nat) : Except Text Bytes × IterableSource :=
  readFrom count s.pending s.iterator

def IterableSource.readAny (s : IterableSource) : Option Bytes × IterableSource :=
  if s.pending.length > 0 then (some s.pending, { s with pending := [] })
  else match s.iterator with
    | [] => (none, s)
    | value :: rest => (some value, { s with iterator := rest })

theorem readFrom_of_le (count : Nat) (pending : Bytes) (iterator : List Bytes)
    (h : count ≤ (pending ++ iterator.flatten).length) :
    ∃ s', IterableSource.readFrom count pending iterator =
        (.ok ((pending ++ iterator.flatten).take count), s') ∧
      s'.pending ++ s'.iterator.flatten = (pending ++ iterator.flatten).drop count := by
  induction iterator generalizing pending with
  | nil =>
      rw [List.flatten_nil, List.append_nil] at h ⊢
      have hn : ¬ pending.length < count := not_lt.mpr h
      exact ⟨⟨pending.drop count, []⟩, by rw [IterableSource.readFrom, if_neg hn], by simp⟩
  | cons value rest ih =>
      rw [List.flatten_cons, ← List.append_assoc] at h ⊢
      by_cases hn : pending.length < count
      · rw [IterableSource.readFrom, if_pos hn]
        exact ih (pending ++ value) h
      · have hle : count ≤ pending.length := not_lt.mp hn
        refine ⟨⟨pending.drop count, value :: rest⟩, ?_, ?_⟩
        · rw [IterableSource.readFrom, if_neg hn, List.append_assoc,
            List.take_append_of_le_length hle]
        · rw [List.append_assoc, List.drop_append_of_le_length hle, List.flatten_cons]

/-- The end of the iterator rejects a read that reaches beyond it. -/
theorem readFrom_short (count : Nat) (pending : Bytes) (iterator : List Bytes)
    (h : (pending ++ iterator.flatten).length < count) :
    ∃ s', IterableSource.readFrom count pending iterator =
      (.error "connection closed while reading".toList, s') := by
  induction iterator generalizing pending with
  | nil =>
      rw [List.flatten_nil, List.append_nil] at h
      exact ⟨⟨pending, []⟩, by rw [IterableSource.readFrom, if_pos h]⟩
  | cons value rest ih =>
      rw [List.flatten_cons, ← List.append_assoc] at h
      have hp : pending.length < count := by
        rw [List.length_append, List.length_append] at h
        omega
      rw [IterableSource.readFrom, if_pos hp]
      exact ih (pending ++ value) h

/-- A read never takes more than it asks for. -/
theorem length_of_readFrom {count : Nat} {pending : Bytes} {iterator : List Bytes} {b : Bytes}
    {s' : IterableSource} (h : IterableSource.readFrom count pending iterator = (.ok b, s')) :
    b.length ≤ count := by
  induction iterator generalizing pending with
  | nil =>
      rw [IterableSource.readFrom] at h
      split at h
      · cases h
      · cases h
        exact List.length_take_le _ _
  | cons value rest ih =>
      rw [IterableSource.readFrom] at h
      split at h
      · exact ih h
      · cases h
        exact List.length_take_le _ _

/-- Reads over an iterator do not see how the stream was cut. -/
def IterableSource.source : Source UInt8 where
  State := IterableSource
  content s := s.pending ++ s.iterator.flatten
  read s count :=
    match s.read count with
    | (.ok b, s') => some (b, s')
    | (.error _, _) => none
  read_of_le := by
    intro s count h
    obtain ⟨s', hr, hc⟩ := readFrom_of_le count s.pending s.iterator h
    exact ⟨s', by simp only [IterableSource.read, hr], hc⟩

/-- An open socket on whose buffer no request waits. The schedule holds the chunks still to
arrive; at each `none` the reader gets to run. -/
structure OpenSocket where
  buffer : Bytes := []
  schedule : List (Option Bytes)
  deriving DecidableEq

/-- Let chunks arrive until the reader runs. -/
def OpenSocket.arrive : SocketBuffer → List (Option Bytes) → SocketBuffer × List (Option Bytes)
  | s, some chunk :: rest => arrive (s.step (.data chunk)).1 rest
  | s, none :: rest => (s, rest)
  | s, [] => (s, [])

/-- Let chunks arrive until the one waiting request is settled. -/
def OpenSocket.awaiting : SocketBuffer → List (Option Bytes) → Option (Bytes × OpenSocket)
  | _, [] => none
  | s, none :: rest => awaiting s rest
  | s, some chunk :: rest =>
      match s.step (.data chunk) with
      | (s', [⟨_, .bytes b⟩]) => some (b, ⟨s'.buffer, rest⟩)
      | (s', _) => awaiting s' rest

def OpenSocket.read (s : OpenSocket) (count : Nat) : Option (Bytes × OpenSocket) :=
  let (inbound, rest) := arrive { buffer := s.buffer } s.schedule
  match inbound.step (.call ⟨0, .read count⟩) with
  | (s', [⟨_, .bytes b⟩]) => some (b, ⟨s'.buffer, rest⟩)
  | (s', _) => awaiting s' rest

def OpenSocket.content (s : OpenSocket) : Bytes := s.buffer ++ (s.schedule.filterMap id).flatten

theorem arrive_spec (buffer : Bytes) (schedule : List (Option Bytes)) :
    ∃ b rest, OpenSocket.arrive { buffer } schedule = ({ buffer := b }, rest) ∧
      OpenSocket.content ⟨b, rest⟩ = OpenSocket.content ⟨buffer, schedule⟩ := by
  induction schedule generalizing buffer with
  | nil => exact ⟨buffer, [], rfl, rfl⟩
  | cons c rest ih =>
      cases c with
      | none => exact ⟨buffer, rest, rfl, rfl⟩
      | some chunk =>
          obtain ⟨b, rest', ha, hc⟩ := ih (buffer ++ chunk)
          exact ⟨b, rest', ha, by rw [hc]; simp [OpenSocket.content]⟩

/-- A request on the buffer, `read(count)` or `readAny()`. -/
def OpenSocket.request (s : OpenSocket) (r : Request) : Option (Bytes × OpenSocket) :=
  let (inbound, rest) := arrive { buffer := s.buffer } s.schedule
  match inbound.step (.call ⟨0, r⟩) with
  | (s', [⟨_, .bytes b⟩]) => some (b, ⟨s'.buffer, rest⟩)
  | (s', _) => awaiting s' rest

theorem share_append_drop (r : Request) (buffer : Bytes) :
    r.share buffer ++ buffer.drop (r.share buffer).length = buffer := by
  cases r with
  | readAny => simp [Request.share]
  | read count =>
      have hd : buffer.drop (buffer.take count).length = buffer.drop count := by
        rw [List.length_take]
        rcases Nat.le_total count buffer.length with h | h
        · rw [Nat.min_eq_left h]
        · rw [Nat.min_eq_right h, List.drop_length, List.drop_of_length_le h]
      rw [Request.share, hd, List.take_append_drop]

/-- What a servable request is served with is what it asked for. -/
theorem servable_share {r : Request} {buffer : Bytes} (h : r.servable buffer) :
    r.servable (r.share buffer) ∧ r.share (r.share buffer) = r.share buffer := by
  cases r with
  | readAny => exact ⟨h, rfl⟩
  | read count =>
      have hl : (buffer.take count).length = count := by
        rw [List.length_take]
        exact Nat.min_eq_left h
      exact ⟨hl.ge, List.take_of_length_le hl.le⟩

/-- A request that is served by some bytes is served by more. -/
theorem servable_append {r : Request} {buffer : Bytes} (h : r.servable buffer) (more : Bytes) :
    r.servable (buffer ++ more) := by
  cases r with
  | readAny => exact List.append_ne_nil_of_left_ne_nil h more
  | read count =>
      change count ≤ (buffer ++ more).length
      rw [List.length_append]
      exact Nat.le_add_right_of_le h

/-- A request that waits on the buffer is served once enough has arrived. -/
theorem flushed_single (buffer : Bytes) (r : Request) :
    SocketBuffer.flushed { buffer, waiters := [⟨0, r⟩] } =
      if r.servable buffer then
        ({ buffer := buffer.drop (r.share buffer).length },
          [⟨⟨0, r⟩, .bytes (r.share buffer)⟩])
      else ({ buffer, waiters := [⟨0, r⟩] }, []) := by
  cases r with
  | readAny =>
      by_cases h : buffer = []
      · simp [SocketBuffer.flushed, flush, Request.servable, h]
      · simp [SocketBuffer.flushed, flush, Request.servable, Request.share, h]
  | read count =>
      by_cases h : count ≤ buffer.length
      · simp [SocketBuffer.flushed, flush, Request.servable, Request.share, h, not_lt.mpr h]
      · simp [SocketBuffer.flushed, flush, Request.servable, h, not_le.mp h]

/-- The request is served what it asked for from the front of the content. -/
def Served (r : Request) (content : Bytes) (result : Option (Bytes × OpenSocket)) : Prop :=
  ∃ b s', result = some (b, s') ∧ b ++ s'.content = content ∧ r.servable b ∧ r.share b = b

/-- A request is served from the buffer where that reaches for it. -/
theorem served_buffer {buffer : Bytes} {r : Request} (h : r.servable buffer)
    (schedule : List (Option Bytes)) :
    Served r (OpenSocket.content ⟨buffer, schedule⟩)
      (some (r.share buffer, ⟨buffer.drop (r.share buffer).length, schedule⟩)) := by
  refine ⟨_, _, rfl, ?_, servable_share h⟩
  rw [OpenSocket.content, OpenSocket.content, ← List.append_assoc, share_append_drop]

theorem awaiting_spec {buffer : Bytes} {r : Request} {schedule : List (Option Bytes)}
    (hn : ¬ r.servable buffer) :
    if r.servable (OpenSocket.content ⟨buffer, schedule⟩) then
      Served r (OpenSocket.content ⟨buffer, schedule⟩)
        (OpenSocket.awaiting { buffer, waiters := [⟨0, r⟩] } schedule)
    else OpenSocket.awaiting { buffer, waiters := [⟨0, r⟩] } schedule = none := by
  induction schedule generalizing buffer with
  | nil =>
      have hc : OpenSocket.content ⟨buffer, []⟩ = buffer := by simp [OpenSocket.content]
      rw [hc, if_neg hn]
      rfl
  | cons c rest ih =>
      cases c with
      | none => exact ih hn
      | some chunk =>
          have hc : OpenSocket.content ⟨buffer, some chunk :: rest⟩ =
              OpenSocket.content ⟨buffer ++ chunk, rest⟩ := by simp [OpenSocket.content]
          have hs : SocketBuffer.step { buffer, waiters := [⟨0, r⟩] } (.data chunk) =
              SocketBuffer.flushed { buffer := buffer ++ chunk, waiters := [⟨0, r⟩] } := rfl
          have hf := flushed_single (buffer ++ chunk) r
          rw [hc]
          by_cases hb : r.servable (buffer ++ chunk)
          · have hall : r.servable (OpenSocket.content ⟨buffer ++ chunk, rest⟩) :=
              servable_append hb _
            rw [if_pos hb] at hf
            rw [if_pos hall]
            simp only [OpenSocket.awaiting, hs, hf]
            exact served_buffer hb rest
          · rw [if_neg hb] at hf
            simp only [OpenSocket.awaiting, hs, hf]
            exact ih hb

/-- A request is served exactly when the content reaches for it. -/
theorem request_spec (s : OpenSocket) (r : Request) :
    if r.servable s.content then Served r s.content (s.request r) else s.request r = none := by
  obtain ⟨b, rest, ha, hc⟩ := arrive_spec s.buffer s.schedule
  have hs : SocketBuffer.step { buffer := b } (.call ⟨0, r⟩) =
      SocketBuffer.flushed { buffer := b, waiters := [⟨0, r⟩] } := rfl
  have hf := flushed_single b r
  change OpenSocket.content ⟨b, rest⟩ = s.content at hc
  rw [← hc]
  by_cases hb : r.servable b
  · have hall : r.servable (OpenSocket.content ⟨b, rest⟩) := servable_append hb _
    rw [if_pos hb] at hf
    rw [if_pos hall]
    simp only [OpenSocket.request, ha, hs, hf]
    exact served_buffer hb rest
  · rw [if_neg hb] at hf
    simp only [OpenSocket.request, ha, hs, hf]
    exact awaiting_spec hb

theorem request_served {s : OpenSocket} {r : Request} (h : r.servable s.content) :
    Served r s.content (s.request r) := by
  have := request_spec s r
  rwa [if_pos h] at this

theorem openSocket_read (s : OpenSocket) (count : Nat) (h : count ≤ s.content.length) :
    ∃ s', s.read count = some (s.content.take count, s') ∧ s'.content = s.content.drop count := by
  obtain ⟨b, s', hr, hc, hle, hb⟩ := request_served (r := .read count) h
  have hl : b.length = count := by
    have htake := congrArg List.length hb
    change count ≤ b.length at hle
    rw [Request.share, List.length_take] at htake
    omega
  refine ⟨s', ?_, ?_⟩
  · rw [← hc, List.take_left' hl]
    exact hr
  · rw [← hc, List.drop_left' hl]

/-- Reads from a buffer whose socket stays open do not see when the chunks arrive. -/
def OpenSocket.source : Source UInt8 where
  State := OpenSocket
  content := OpenSocket.content
  read := OpenSocket.read
  read_of_le := openSocket_read

/-- A read from an open socket settles only within what arrives. -/
theorem openSocket_exact : OpenSocket.source.Exact := by
  intro s count r h
  by_contra hgt
  have hspec := request_spec s (.read count)
  have hs : s.request (.read count) = some r := h
  rw [if_neg (show ¬ Request.servable s.content (.read count) from hgt), hs] at hspec
  cases hspec

/-- `(await buffer.read(1))[0]` -/
def readByte {source : Source UInt8} {ε : Type} : source.Reads ε UInt8 := do
  let b ← Source.next 1
  return b.head?.getD 0

theorem consumes_byte {source : Source UInt8} {ε : Type} (b : UInt8) :
    Source.Consumes (readByte : source.Reads ε UInt8) [b] b :=
  (Source.consumes_of_length rfl).bind_nil (Source.consumes_pure b)

/-- Requests one after the other, up to one that is not served: the bytes each is served with
and the state behind them. -/
def OpenSocket.serve (s : OpenSocket) : List Request → List Bytes × OpenSocket
  | [] => ([], s)
  | r :: rest =>
      match s.request r with
      | some (b, s') => (b :: (s'.serve rest).1, (s'.serve rest).2)
      | none => ([], s)

/-- Whatever is asked for, the requests get the bytes in order, and none that these reach for
is left waiting. -/
structure Continues (s : OpenSocket) (bytes : Bytes) : Prop where
  ordered : ∀ requests, (s.serve requests).1.flatten ++ (s.serve requests).2.content = bytes
  served : ∀ requests r, r.servable (s.serve requests).2.content →
    Served r (s.serve requests).2.content ((s.serve requests).2.request r)

theorem serve_content (s : OpenSocket) (requests : List Request) :
    (s.serve requests).1.flatten ++ (s.serve requests).2.content = s.content := by
  induction requests generalizing s with
  | nil => rfl
  | cons r rest ih =>
      have hspec := request_spec s r
      by_cases hr : r.servable s.content
      · rw [if_pos hr] at hspec
        obtain ⟨b, s', hs, hc, -⟩ := hspec
        simp only [OpenSocket.serve, hs, List.flatten_cons, List.append_assoc]
        rw [ih s', hc]
      · rw [if_neg hr] at hspec
        simp only [OpenSocket.serve, hspec]
        rfl

theorem continues_of_content {s : OpenSocket} {bytes : Bytes} (h : s.content = bytes) :
    Continues s bytes :=
  ⟨fun requests => (serve_content s requests).trans h, fun _ _ hr => request_served hr⟩

end DshClashProxy.Core.Transports
