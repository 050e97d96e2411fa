import DshClashProxy.Core.Transports

/-!
# A socket buffer is a queue

Until its socket closes or fails, a `SocketBuffer` keeps every byte and every request in order.
Both the socket and the readers flush it, and a flush stops only at a request that the buffer
does not reach for. So no request is left waiting that could be served.
-/
namespace DshClashProxy.Core.SocketFifo

open Js Transports

/-- Neither a close nor an error. -/
def Live : Event → Prop
  | .data _ => True
  | .call _ => True
  | .close => False
  | .error _ => False

/-- The request that an event makes. -/
def called : Event → List Waiter
  | .call w => [w]
  | _ => []

/-- The requests in the order of their calls. -/
def calls (events : List Event) : List Waiter := events.flatMap called

/-- What a request asks for: so many bytes, or any at all. -/
def Answers (b : Bytes) : Request → Prop
  | .read count => b.length = count
  | .readAny => b ≠ []

/-- What holds after a history. -/
structure Fifo (events : List Event) : Prop where
  /-- Results and buffer together are what was received. -/
  conserved : delivered (run events).2 ++ (run events).1.buffer = received events
  /-- The requests settled so far, and then those that wait, are the calls in order. -/
  ordered : (run events).2.map Settlement.waiter ++ (run events).1.waiters = calls events
  answered : ∀ t ∈ (run events).2, ∃ b, t.outcome = .bytes b ∧ Answers b t.waiter.request
  /-- The oldest request that waits cannot be served. -/
  stuck : ∀ w rest, (run events).1.waiters = w :: rest →
    ¬ w.request.servable (run events).1.buffer

theorem answers_of_share {r : Request} {b : Bytes} (hs : r.servable b) (he : r.share b = b) :
    Answers b r := by
  cases r with
  | readAny => exact hs
  | read count =>
      have hl := congrArg List.length he
      rw [Request.share, List.length_take] at hl
      have hle : count ≤ b.length := hs
      exact show b.length = count by omega

/-- A flush settles requests from the front and leaves the others. -/
theorem flush_waiters (buffer : Bytes) (waiters : List Waiter) :
    (flush buffer waiters).2.2.map Settlement.waiter ++ (flush buffer waiters).2.1 = waiters := by
  induction waiters generalizing buffer with
  | nil => rfl
  | cons w rest ih =>
      cases hr : w.request with
      | readAny =>
          by_cases hb : buffer.isEmpty = true
          · simp [flush, hr, hb]
          · simpa [flush, hr, hb] using ih []
      | read count =>
          by_cases hb : buffer.length < count
          · simp [flush, hr, hb]
          · simpa [flush, hr, hb] using ih (buffer.drop count)

/-- A flush stops only at a request that what is left does not serve. -/
theorem flush_stuck (buffer : Bytes) (waiters : List Waiter) {w : Waiter} {rest : List Waiter}
    (h : (flush buffer waiters).2.1 = w :: rest) :
    ¬ w.request.servable (flush buffer waiters).1 := by
  induction waiters generalizing buffer with
  | nil => cases h
  | cons v waiters ih =>
      cases hr : v.request with
      | readAny =>
          by_cases hb : buffer.isEmpty = true
          · simp only [flush, hr, hb, if_true] at h ⊢
            obtain ⟨rfl, -⟩ := List.cons.inj h
            rw [hr]
            exact fun hs => hs (List.isEmpty_iff.mp hb)
          · simp only [flush, hr, hb, Bool.false_eq_true, if_false] at h ⊢
            exact ih [] h
      | read count =>
          by_cases hb : buffer.length < count
          · simp only [flush, hr, hb, if_true] at h ⊢
            obtain ⟨rfl, -⟩ := List.cons.inj h
            rw [hr]
            exact not_le.mpr hb
          · simp only [flush, hr, hb, if_false] at h ⊢
            exact ih (buffer.drop count) h

theorem not_ended {events : List Event} (h : ∀ e ∈ events, Live e) :
    (run events).1.ended = false := by
  rw [← Bool.not_eq_true, ended_iff]
  exact fun hc => h _ hc

/-- What one event does while the socket is open: it flushes the buffer with what it adds. -/
theorem step_live {s : SocketBuffer} (hs : s.ended = false) {e : Event} (he : Live e) :
    ∃ buffer, s.step e =
      ({ s with buffer := (flush buffer (s.waiters ++ called e)).1,
                waiters := (flush buffer (s.waiters ++ called e)).2.1 },
        (flush buffer (s.waiters ++ called e)).2.2) := by
  cases e with
  | data chunk =>
      refine ⟨s.buffer ++ chunk, ?_⟩
      simp [SocketBuffer.step, hs, SocketBuffer.flushed, called]
  | call w =>
      refine ⟨s.buffer, ?_⟩
      simp [SocketBuffer.step, hs, SocketBuffer.flushed, called]
  | close => exact he.elim
  | error message => exact he.elim

theorem calls_snoc (events : List Event) (e : Event) :
    calls (events ++ [e]) = calls events ++ called e := by
  rw [calls, List.flatMap_append, List.flatMap_singleton]
  rfl

/-- After every event of a history without a close or an error, the buffer is in order. -/
theorem socketBuffer_fifo {events before : List Event} (h : ∀ e ∈ events, Live e)
    (hb : before <+: events) : Fifo before := by
  have hlive : ∀ e ∈ before, Live e := fun e he => h e (hb.subset he)
  clear h hb
  induction before using List.reverseRecOn with
  | nil => exact ⟨rfl, rfl, nofun, nofun⟩
  | append_singleton before e ih =>
      have hbefore : ∀ d ∈ before, Live d := fun d hd => hlive d (List.mem_append_left _ hd)
      have hfifo := ih hbefore
      obtain ⟨buffer, hs⟩ := step_live (not_ended hbefore)
        (hlive e (List.mem_append_right _ List.mem_cons_self))
      have hrun := run_snoc before e
      rw [hs] at hrun
      refine ⟨delivered_buffer _, ?_, ?_, ?_⟩
      · rw [hrun, calls_snoc, List.map_append, List.append_assoc, flush_waiters,
          ← List.append_assoc, hfifo.ordered]
      · rw [hrun]
        intro t ht
        rcases List.mem_append.mp ht with ht | ht
        · exact hfifo.answered t ht
        · obtain ⟨b, hb, hserved, hshare⟩ := flush_settles _ _ t ht
          exact ⟨b, hb, answers_of_share hserved hshare⟩
      · rw [hrun]
        exact fun w rest hw => flush_stuck _ _ hw

/-- Two requests wait for the bytes, and the first takes its share from both chunks. -/
def crossing : List Event :=
  [.call ⟨0, .read 2⟩, .call ⟨1, .readAny⟩, .data [0x61], .data [0x62, 0x63], .call ⟨2, .read 1⟩]

theorem crossing_fifo : Fifo crossing :=
  @socketBuffer_fifo crossing _ (by simp [crossing, Live]) List.prefix_rfl

/-! ## Closes and errors -/

/-- What holds after any history: the results so far are the front of what was received, requests
are settled in the order of their calls, and none waits once the socket has closed. -/
structure Settles (events : List Event) : Prop where
  conserved : delivered (run events).2 ++ (run events).1.buffer = received events
  ordered : (run events).2.map Settlement.waiter ++ (run events).1.waiters = calls events
  answered : ∀ t ∈ (run events).2, ∀ b, t.outcome = .bytes b → Answers b t.waiter.request
  closed : Event.close ∈ events → (run events).1.waiters = []

/-- A closed buffer keeps no request waiting. -/
theorem step_closed {s : SocketBuffer} (h : s.ended = true → s.waiters = []) (e : Event) :
    (s.step e).1.ended = true → (s.step e).1.waiters = [] := by
  intro he
  cases e with
  | close =>
      by_cases hs : s.ended = true
      · simpa [SocketBuffer.step, hs] using h hs
      · simp [SocketBuffer.step, hs]
  | error message => rfl
  | data chunk | call w =>
      by_cases hs : s.ended = true
      · simpa [SocketBuffer.step, hs] using h hs
      · simp [step_ended, hs] at he

/-- One event settles requests from the front of those that wait and the one it makes. -/
theorem step_waiters {s : SocketBuffer} (h : s.ended = true → s.waiters = []) (e : Event) :
    (s.step e).2.map Settlement.waiter ++ (s.step e).1.waiters = s.waiters ++ called e := by
  by_cases hs : s.ended = true
  · have hw := h hs
    cases e with
    | call w => simp [SocketBuffer.step, hs, hw, called, refusal_waiter]
    | data chunk | close | error message => simp [SocketBuffer.step, hs, hw, called]
  · cases e with
    | data chunk | call w =>
        simpa [SocketBuffer.step, hs, SocketBuffer.flushed, called] using flush_waiters _ _
    | close =>
        simp [SocketBuffer.step, hs, called, Function.comp_def, closing_waiter]
    | error message => simp [SocketBuffer.step, called, Function.comp_def]

/-- Each request is settled once, in the order of the calls, whatever arrives and whenever the
socket closes or fails. -/
theorem settled_in_order (events : List Event) : Settles events := by
  have hclosed : ∀ events : List Event,
      (run events).1.ended = true → (run events).1.waiters = [] := by
    intro events
    induction events using List.reverseRecOn with
    | nil => exact fun _ => rfl
    | append_singleton before e ih =>
        rw [run_snoc]
        exact step_closed ih e
  refine ⟨delivered_buffer events, ?_, ?_, fun hc => hclosed events ((ended_iff events).mpr hc)⟩
  · induction events using List.reverseRecOn with
    | nil => rfl
    | append_singleton before e ih =>
        rw [run_snoc, calls_snoc, List.map_append, List.append_assoc,
          step_waiters (hclosed before) e, ← List.append_assoc, ih]
  · intro t ht b hb
    induction events using List.reverseRecOn with
    | nil => cases ht
    | append_singleton before e ih =>
        rw [run_snoc] at ht
        rcases List.mem_append.mp ht with ht | ht
        · exact ih ht
        · rcases step_settles ht with ⟨b', ho, hserved, hshare⟩ | ⟨hn, -⟩
          · cases hb.symm.trans ho
            exact answers_of_share hserved hshare
          · exact absurd hb (hn b)

end DshClashProxy.Core.SocketFifo
