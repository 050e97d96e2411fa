import DshClashProxy.Core.Connectors

/-!
# `connectThrough`, event by event

A connection is a socket, the buffer of what it receives, and a transport function that runs as
far as it can whenever something happens. Only the network closes the socket: a transport function
that throws leaves it as it is. One that returns has been sent the reply of its handshake.
-/
namespace DshClashProxy.Core.Dialling

open Js Lib.ByteSource Transports Connectors
open Vless (Thrown)
open Lib.Resumption (Program Status advance)

inductive SocketState where
  | absent
  | connecting
  | connected
  | destroyed
  deriving DecidableEq

/-- How far `connectThrough` has come. -/
inductive Progress where
  | connecting (behind : Steps Thrown Unit)
  | waiting (r : Await) (next : r.Answer → Steps Thrown Unit)
  | fulfilled
  | rejected

def Progress.of : Status Await.Answer Thrown Unit → Progress
  | .waiting r next => .waiting r next
  | .returned _ => .fulfilled
  | .failed _ => .rejected

def Progress.Settled : Progress → Prop
  | fulfilled => True
  | rejected => True
  | _ => False

/-- A call of `connectThrough` and the socket it opens. -/
structure Connection where
  socket : SocketState
  inbound : SocketBuffer := {}
  progress : Progress

/-- What happens to a socket. -/
inductive NetworkEvent where
  /-- `connect` or, of a TLS socket, `secureConnect` -/
  | connected
  | data (chunk : Bytes)
  /-- What was written is through: the socket has room for it, at once or when it drains, or the
  callback of the write is called. -/
  | written
  /-- The peer ends the connection, and the socket closes. -/
  | closed
  /-- An error, behind which the socket closes. -/
  | failed (message : Text)
  deriving DecidableEq

/-- What a read becomes for the function that awaits it. -/
def answerOf : Outcome → Except Thrown Bytes
  | .bytes b => .ok b
  | .null => .error (.error "Cannot read properties of null".toList)
  | .rejected message => .error (.error message)

/-- What a request gets at once: a read what is buffered, a write nothing. -/
def serve (inbound : SocketBuffer) :
    (r : Await) → SocketBuffer × Option (Except Thrown r.Answer)
  | .read count =>
      let (inbound, settled) := inbound.step (.call ⟨0, .read count⟩)
      (inbound, settled.head?.map fun t => answerOf t.outcome)
  | .write _ => (inbound, none)
  | .send _ => (inbound, none)

namespace Connection

/-- Go on with this until the function awaits something. -/
def resume (c : Connection) (p : Steps Thrown Unit) : Connection :=
  let (inbound, status) := advance serve c.inbound p
  { c with inbound, progress := .of status }

/-- An event of the buffer, which may settle the read that waits. -/
def feed (c : Connection) (e : Transports.Event) : Connection :=
  let (inbound, settled) := c.inbound.step e
  let c := { c with inbound }
  match c.progress, settled.head? with
  | .waiting (.read _) next, some t =>
      match answerOf t.outcome with
      | .ok b => c.resume (next b)
      | .error _ => { c with progress := .rejected }
  | _, _ => c

/-- The socket closes. A write that waits for room waits on, and a callback is called. -/
def closed (c : Connection) : Connection :=
  let c := { c with socket := .destroyed }.feed .close
  match c.progress with
  | .waiting (.send _) next => c.resume (next ())
  | _ => c

/-- An error rejects whatever the function awaits. -/
def failed (c : Connection) (message : Text) : Connection :=
  { socket := .destroyed
    inbound := ((c.inbound.step (.error message)).1.step .close).1
    progress := match c.progress with
      | .fulfilled => .fulfilled
      | _ => .rejected }

/-- The socket is there and has not been closed. -/
def Open (c : Connection) : Prop := c.socket = .connecting ∨ c.socket = .connected

instance (c : Connection) : Decidable c.Open := inferInstanceAs (Decidable (_ ∨ _))

/-- Nothing happens to a socket that is not open. -/
def step (c : Connection) (e : NetworkEvent) : Connection :=
  if c.Open then
    match e, c.progress with
    | .connected, .connecting behind => { c with socket := .connected }.resume behind
    | .connected, _ => c
    | .data chunk, _ => if c.socket = .connected then c.feed (.data chunk) else c
    | .written, .waiting (.write _) next => c.resume (next ())
    | .written, .waiting (.send _) next => c.resume (next ())
    | .written, _ => c
    | .closed, _ => c.closed
    | .failed message, _ => c.failed message
  else c

/-- `face.close()` -/
def close (c : Connection) : Connection :=
  { c with socket := if c.socket = .absent then .absent else .destroyed }

end Connection

section
variable (s : Surroundings) (node : Option Node) (host : Text) (port : Number)

/-- `connectThrough` up to its first await. The native connector is a process of its own. -/
def connectThrough : Connection :=
  match ConnectPort.connectThrough s.cases s.hasNativeConnector (node.map Node.toUpstream) port with
  | none => { socket := .absent, progress := .rejected }
  | some .native => { socket := .absent, progress := .fulfilled }
  | some t =>
      { socket := .connecting
        progress := .connecting (node.elim (pure ()) fun node => behindSocket s node host port t) }

/-- The connection after these events, by itself. -/
def connection (events : List NetworkEvent) : Connection :=
  events.foldl Connection.step (connectThrough s node host port)

end

/-- The event closes the socket. -/
def NetworkEvent.Ends : NetworkEvent → Prop
  | closed => True
  | failed _ => True
  | _ => False

/-! ## The socket of a connection -/

namespace Connection

@[simp] theorem resume_socket (c : Connection) (p : Steps Thrown Unit) :
    (c.resume p).socket = c.socket := rfl

@[simp] theorem feed_socket (c : Connection) (e : Transports.Event) :
    (c.feed e).socket = c.socket := by
  unfold feed
  dsimp only
  split
  · split
    · rfl
    · rfl
  · rfl

/-- The buffer has nothing to settle for a promise that has settled. -/
theorem feed_settled {c : Connection} (h : c.progress.Settled) (e : Transports.Event) :
    (c.feed e).progress = c.progress := by
  unfold feed
  dsimp only
  split
  · next hp _ => rw [hp] at h; exact h.elim
  · rfl

@[simp] theorem closed_socket (c : Connection) : c.closed.socket = .destroyed := by
  unfold closed
  simp only
  split
  · exact feed_socket _ _
  · exact feed_socket _ _

theorem not_open_close (c : Connection) : ¬ c.close.Open := by
  unfold close Open
  split <;> simp

theorem step_of_not_open {c : Connection} (h : ¬ c.Open) (e : NetworkEvent) : c.step e = c :=
  if_neg h

/-- A socket is open as long as no event closes it. -/
theorem open_step (c : Connection) (e : NetworkEvent) : (c.step e).Open ↔ c.Open ∧ ¬ e.Ends := by
  by_cases h : c.Open
  · unfold step
    rw [if_pos h, and_iff_right h]
    cases e with
    | connected =>
        refine iff_of_true ?_ id
        cases c.progress with
        | connecting behind => exact .inr rfl
        | waiting r next => exact h
        | fulfilled => exact h
        | rejected => exact h
    | data chunk =>
        refine iff_of_true ?_ id
        simp only
        split
        · next hc => exact .inr ((feed_socket c _).trans hc)
        · exact h
    | written =>
        refine iff_of_true ?_ id
        cases c.progress with
        | waiting r next => cases r <;> exact h
        | connecting behind => exact h
        | fulfilled => exact h
        | rejected => exact h
    | closed =>
        refine iff_of_false (fun ho => ?_) fun hn => hn trivial
        simp [Open] at ho
    | failed message =>
        refine iff_of_false (fun ho => ?_) fun hn => hn trivial
        simp [Open, failed] at ho
  · rw [step_of_not_open h]
    exact iff_of_false h fun hn => h hn.1

theorem closed_settled {c : Connection} (h : c.progress.Settled) :
    c.closed.progress = c.progress := by
  have hf := feed_settled (c := { c with socket := .destroyed }) h .close
  unfold closed
  dsimp only
  split
  · next hp =>
      rw [hf] at hp
      rw [show c.progress = _ from hp] at h
      exact h.elim
  · exact hf

theorem failed_settled {c : Connection} (h : c.progress.Settled) (message : Text) :
    (c.failed message).progress = c.progress := by
  cases hp : c.progress with
  | connecting behind => rw [hp] at h; exact h.elim
  | waiting r next => rw [hp] at h; exact h.elim
  | fulfilled => simp only [failed, hp]
  | rejected => simp only [failed, hp]

/-- What has settled stays so. -/
theorem settled_step {c : Connection} (h : c.progress.Settled) (e : NetworkEvent) :
    (c.step e).progress = c.progress := by
  unfold step
  split
  · split
    · next hp => rw [hp] at h; exact h.elim
    · rfl
    · split
      · exact feed_settled h _
      · rfl
    · next hp => rw [hp] at h; exact h.elim
    · next hp => rw [hp] at h; exact h.elim
    · rfl
    · exact closed_settled h
    · exact failed_settled h _
  · rfl

end Connection

section
variable (s : Surroundings) (node : Option Node) (host : Text) (port : Number)

theorem connection_open (events : List NetworkEvent) :
    (connection s node host port events).Open ↔
      (connectThrough s node host port).Open ∧ ∀ e ∈ events, ¬ e.Ends := by
  induction events using List.reverseRecOn with
  | nil => simp [connection]
  | append_singleton events e ih =>
      rw [connection, List.foldl_append, List.foldl_cons, List.foldl_nil, Connection.open_step]
      change (connection s node host port events).Open ∧ _ ↔ _
      rw [ih, List.forall_mem_append, List.forall_mem_singleton, and_assoc]

theorem connectThrough_open :
    (connectThrough s node host port).Open ↔
      ∃ t, ConnectPort.connectThrough s.cases s.hasNativeConnector (node.map Node.toUpstream)
        port = some t ∧ t ≠ .native := by
  unfold connectThrough
  cases ConnectPort.connectThrough s.cases s.hasNativeConnector (node.map Node.toUpstream) port with
  | none => simp [Connection.Open]
  | some t => cases t <;> simp [Connection.Open]

end

/-! ## What the server has sent -/

/-- The bytes of an event. -/
def NetworkEvent.chunk : NetworkEvent → Bytes
  | data chunk => chunk
  | _ => []

/-- What arrives on the connected socket. -/
def received (events : List NetworkEvent) : Bytes :=
  (events.dropWhile (· ≠ .connected)).flatMap NetworkEvent.chunk

/-- Run against these bytes, the function returns. -/
def Accepts (p : Steps Thrown Unit) (sent : List Bytes) (bytes : Bytes) : Prop :=
  ∃ all rest, runOn (Source.ofList UInt8) p sent bytes = some (.ok ((), all), rest)

/-- The buffer is open and nothing waits. -/
def Idle (inbound : SocketBuffer) : Prop := inbound.ended = false ∧ inbound.waiters = []

/-- The buffer is open, and a read waits only for what it does not hold. -/
def Stuck (inbound : SocketBuffer) : Await → Prop
  | .read count => inbound.ended = false ∧ inbound.waiters = [⟨0, .read count⟩] ∧
      inbound.buffer.length < count
  | _ => Idle inbound

theorem serve_read {inbound : SocketBuffer} (h : Idle inbound) (count : Nat) :
    serve inbound (.read count) =
      if inbound.buffer.length < count then
        ({ inbound with waiters := [⟨0, .read count⟩] }, none)
      else ({ inbound with buffer := inbound.buffer.drop count },
        some (.ok (inbound.buffer.take count))) := by
  obtain ⟨hended, hwaiters⟩ := h
  by_cases hlt : inbound.buffer.length < count
  · simp [serve, SocketBuffer.step, SocketBuffer.flushed, flush, hended, hwaiters, hlt]
  · simp [serve, SocketBuffer.step, SocketBuffer.flushed, flush, hended, hwaiters, hlt, answerOf]

theorem ofList_read {count : Nat} {b : Bytes} (hle : count ≤ b.length) (more : Bytes) :
    (Source.ofList UInt8).read (b ++ more) count =
      some (b.take count, b.drop count ++ more) := by
  rw [← List.take_append_of_le_length hle, ← List.drop_append_of_le_length hle]
  exact if_pos (by simp; omega)

/-- The socket answers as the stream of what has arrived and what is still to come. -/
theorem serve_answers (sent : List Bytes) (more : Bytes) :
    Program.Answers (onStream (Source.ofList UInt8) Thrown) serve Idle Stuck
      fun inbound (m : StateT (List Bytes) ((Source.ofList UInt8).Reads Thrown) Unit) =>
        m.run sent (inbound.buffer ++ more) where
  waits inbound r inbound' hidle hserve := by
    cases r with
    | read count =>
        rw [serve_read hidle] at hserve
        split at hserve
        · next hlt =>
            cases hserve
            exact ⟨⟨hidle.1, rfl, hlt⟩, fun p => rfl⟩
        · cases hserve
    | write data =>
        cases hserve
        exact ⟨hidle, fun p => rfl⟩
    | send data =>
        cases hserve
        exact ⟨hidle, fun p => rfl⟩
  served inbound r inbound' a hidle hserve := by
    cases r with
    | read count =>
        rw [serve_read hidle] at hserve
        split at hserve
        · cases hserve
        · next hge =>
            cases hserve
            refine ⟨hidle, fun f => ?_⟩
            refine (@run_read_bind (Source.ofList UInt8) _ _ sent count f _).trans ?_
            rw [ofList_read (not_lt.mp hge) more]
            rfl
    | write data => cases hserve
    | send data => cases hserve
  refuses inbound r inbound' e hidle hserve := by
    cases r with
    | read count =>
        rw [serve_read hidle] at hserve
        split at hserve
        · cases hserve
        · cases hserve
    | write data => cases hserve
    | send data => cases hserve

theorem accepts_read {count : Nat} {b : Bytes} (hle : count ≤ b.length)
    {next : Bytes → Steps Thrown Unit} {sent : List Bytes} {more : Bytes}
    (h : Accepts (next (b.take count)) sent (b.drop count ++ more)) :
    Accepts (.ask (.read count) next) sent (b ++ more) := by
  obtain ⟨all, rest, hrun⟩ := h
  refine ⟨all, rest, (@runOn_ask_read (Source.ofList UInt8) _ _ sent count next _).trans ?_⟩
  rw [ofList_read hle more]
  exact hrun

/-- The function gets as far as it is served, and what it then waits for decides. -/
theorem resume_accepts {c : Connection} (h : Idle c.inbound) {p : Steps Thrown Unit}
    {sent : List Bytes} {more : Bytes} (hne : (c.resume p).progress ≠ .rejected)
    (hrest : ∀ r next, (c.resume p).progress = .waiting r next → Stuck (c.resume p).inbound r →
      Accepts (.ask r next) sent ((c.resume p).inbound.buffer ++ more)) :
    Accepts p sent (c.inbound.buffer ++ more) := by
  obtain ⟨hat, hsee⟩ := (serve_answers sent more).advance h p
  unfold Connection.resume at hne hrest
  generalize advance serve c.inbound p = result at hat hsee hne hrest
  obtain ⟨inbound, status⟩ := result
  have haccepts : Accepts status.rest sent (inbound.buffer ++ more) := by
    cases status with
    | waiting r next => exact hrest r next rfl hat
    | returned a => exact ⟨sent, _, rfl⟩
    | failed e => exact absurd rfl hne
  obtain ⟨all, rest, hrun⟩ := haccepts
  exact ⟨all, rest, hsee.trans hrun⟩

theorem feed_idle {c : Connection} (h : Idle c.inbound) (chunk : Bytes) :
    c.feed (.data chunk) =
      { c with inbound := { c.inbound with buffer := c.inbound.buffer ++ chunk } } := by
  obtain ⟨hended, hwaiters⟩ := h
  have hstep : c.inbound.step (.data chunk) =
      ({ c.inbound with buffer := c.inbound.buffer ++ chunk }, []) := by
    simp [SocketBuffer.step, SocketBuffer.flushed, flush, hended, hwaiters]
  unfold Connection.feed
  rw [hstep]
  dsimp only [List.head?_nil]
  split
  · next ht => cases ht
  · rfl

/-- A read that waits is served once there are enough bytes for it. -/
theorem feed_read {c : Connection} {count : Nat} {next : Bytes → Steps Thrown Unit}
    (hp : c.progress = .waiting (.read count) next) (h : Stuck c.inbound (.read count))
    (chunk : Bytes) :
    c.feed (.data chunk) =
      if (c.inbound.buffer ++ chunk).length < count then
        { c with inbound := { c.inbound with buffer := c.inbound.buffer ++ chunk } }
      else
        { c with inbound := { c.inbound with
            buffer := (c.inbound.buffer ++ chunk).drop count, waiters := [] } }.resume
          (next ((c.inbound.buffer ++ chunk).take count)) := by
  obtain ⟨hended, hwaiters, -⟩ := h
  by_cases hlt : (c.inbound.buffer ++ chunk).length < count
  · have hstep : c.inbound.step (.data chunk) =
        ({ c.inbound with buffer := c.inbound.buffer ++ chunk }, []) := by
      simp only [SocketBuffer.step, SocketBuffer.flushed, flush, hended, hwaiters, hlt,
        Bool.false_eq_true, if_false, if_true]
    unfold Connection.feed
    rw [hstep, if_pos hlt]
    simp only [hp, List.head?_nil]
  · have hstep : c.inbound.step (.data chunk) =
        ({ c.inbound with buffer := (c.inbound.buffer ++ chunk).drop count, waiters := [] },
          [⟨⟨0, .read count⟩, .bytes ((c.inbound.buffer ++ chunk).take count)⟩]) := by
      simp only [SocketBuffer.step, SocketBuffer.flushed, flush, hended, hwaiters, hlt,
        Bool.false_eq_true, if_false]
    unfold Connection.feed
    rw [hstep, if_neg hlt]
    simp only [hp, List.head?_cons, answerOf]

theorem settled_run {c : Connection} (h : c.progress.Settled) (events : List NetworkEvent) :
    (events.foldl Connection.step c).progress = c.progress := by
  induction events generalizing c with
  | nil => rfl
  | cons e rest ih =>
      have hstep := Connection.settled_step h e
      rw [List.foldl_cons, ih (by rw [hstep]; exact h), hstep]

/-- What an event does to a function that waits: it waits on, with what has arrived, or it goes on
with what it has waited for. -/
theorem step_waiting {c : Connection} {r : Await} {next : r.Answer → Steps Thrown Unit}
    (hs : c.socket = .connected) (hp : c.progress = .waiting r next) (hstuck : Stuck c.inbound r)
    {e : NetworkEvent} (he : ¬ e.Ends) :
    (∃ inbound, c.step e = { c with inbound } ∧ Stuck inbound r ∧
      inbound.buffer = c.inbound.buffer ++ e.chunk) ∨
    ∃ inbound p, c.step e = { c with inbound }.resume p ∧ Idle inbound ∧
      ∀ sent, ∃ sent', ∀ more, Accepts p sent' (inbound.buffer ++ more) →
        Accepts (.ask r next) sent (c.inbound.buffer ++ (e.chunk ++ more)) := by
  have hopen : c.Open := .inr hs
  have hnil : c.inbound.buffer = c.inbound.buffer ++ [] := (List.append_nil _).symm
  cases e with
  | connected =>
      have hstep : c.step .connected = c := by simp [Connection.step, hopen, hp]
      exact .inl ⟨c.inbound, hstep, hstuck, hnil⟩
  | data chunk =>
      have hstep : c.step (.data chunk) = c.feed (.data chunk) := by
        simp [Connection.step, hopen, hs]
      cases r with
      | read count =>
          rw [feed_read hp hstuck] at hstep
          by_cases hlt : (c.inbound.buffer ++ chunk).length < count
          · rw [if_pos hlt] at hstep
            exact .inl ⟨_, hstep, ⟨hstuck.1, hstuck.2.1, hlt⟩, rfl⟩
          · rw [if_neg hlt] at hstep
            refine .inr ⟨_, _, hstep, ⟨hstuck.1, rfl⟩, fun sent => ⟨sent, fun more ha => ?_⟩⟩
            rw [NetworkEvent.chunk, ← List.append_assoc]
            exact accepts_read (not_lt.mp hlt) ha
      | write data => exact .inl ⟨_, hstep.trans (feed_idle hstuck chunk), hstuck, rfl⟩
      | send data => exact .inl ⟨_, hstep.trans (feed_idle hstuck chunk), hstuck, rfl⟩
  | written =>
      cases r with
      | read count =>
          have hstep : c.step .written = c := by simp [Connection.step, hopen, hp]
          exact .inl ⟨c.inbound, hstep, hstuck, hnil⟩
      | write data =>
          have hstep : c.step .written = c.resume (next ()) := by
            simp [Connection.step, hopen, hp]
          exact .inr ⟨c.inbound, _, hstep, hstuck, fun sent => ⟨sent ++ [data], fun more => id⟩⟩
      | send data =>
          have hstep : c.step .written = c.resume (next ()) := by
            simp [Connection.step, hopen, hp]
          exact .inr ⟨c.inbound, _, hstep, hstuck, fun sent => ⟨sent ++ [data], fun more => id⟩⟩
  | closed => exact absurd trivial he
  | failed message => exact absurd trivial he

/-- A function that waits and returns in the end is given what it returns on. The induction is on
the events to come. -/
theorem waiting_accepts {events : List NetworkEvent} (hends : ∀ e ∈ events, ¬ e.Ends)
    {c : Connection} {r : Await} {next : r.Answer → Steps Thrown Unit}
    (hs : c.socket = .connected) (hp : c.progress = .waiting r next) (hstuck : Stuck c.inbound r)
    (hf : (events.foldl Connection.step c).progress = .fulfilled) (sent : List Bytes) :
    Accepts (.ask r next) sent (c.inbound.buffer ++ events.flatMap NetworkEvent.chunk) := by
  induction events generalizing c r sent with
  | nil =>
      rw [List.foldl_nil, hp] at hf
      cases hf
  | cons e rest ih =>
      obtain ⟨he, hrest⟩ := List.forall_mem_cons.mp hends
      rw [List.foldl_cons] at hf
      rw [List.flatMap_cons]
      rcases step_waiting hs hp hstuck he with
        ⟨inbound, hstep, hstuck', hbuffer⟩ | ⟨inbound, p, hstep, hidle, haccepts⟩
      · rw [hstep] at hf
        rw [← List.append_assoc, ← hbuffer]
        exact ih (c := { c with inbound }) hrest hs hp hstuck' hf sent
      · obtain ⟨sent', haccepts⟩ := haccepts sent
        rw [hstep] at hf
        refine haccepts _ (resume_accepts (c := { c with inbound }) hidle (fun hr => ?_) ?_)
        -- A rejected promise would stay rejected.
        · rw [settled_run (by rw [hr]; trivial), hr] at hf
          cases hf
        · intro r next hp' hstuck'
          exact ih (c := { c with inbound }.resume p) hrest hs hp' hstuck' hf sent'

/-- A function that returns has been sent, behind the connect, what it returns on. -/
theorem connecting_accepts {events : List NetworkEvent} (hends : ∀ e ∈ events, ¬ e.Ends)
    {behind : Steps Thrown Unit}
    (hf : (events.foldl Connection.step ⟨.connecting, {}, .connecting behind⟩).progress =
      .fulfilled) : Accepts behind [] (received events) := by
  induction events with
  | nil => cases hf
  | cons e rest ih =>
      obtain ⟨he, hrest⟩ := List.forall_mem_cons.mp hends
      rw [List.foldl_cons] at hf
      cases e with
      | connected =>
          have hidle : Idle ({} : SocketBuffer) := ⟨rfl, rfl⟩
          refine resume_accepts (c := ⟨.connected, {}, .connecting behind⟩) hidle (fun hr => ?_)
            fun r next hp hstuck => waiting_accepts hrest rfl hp hstuck hf []
          have hkept := settled_run (by rw [hr]; trivial) rest
          rw [hr] at hkept
          cases hf.symm.trans hkept
      | data chunk => exact ih hrest hf
      | written => exact ih hrest hf
      | closed => exact absurd trivial he
      | failed message => exact absurd trivial he

theorem accepts_first {p f} {sent : List Bytes} {bytes : Bytes}
    (h : Accepts (p >>= f : Steps Thrown Unit) sent bytes) : Accepts p sent bytes := by
  obtain ⟨all, rest, hrun⟩ := h
  rw [runOn_bind] at hrun
  obtain ⟨r, s', hp, -⟩ := Source.bind_inv hrun
  exact ⟨r.2, s', hp⟩

/-- The stream has what this handshake accepts. -/
def Replied (q : (Source.ofList UInt8).Reads Text (List Bytes)) (bytes : Bytes) : Prop :=
  ∃ sent rest, q bytes = some (.ok sent, rest)

theorem replied_of_accepts {p : Steps Text Unit}
    {q : (Source.ofList UInt8).Reads Text (List Bytes)}
    (hpq : runOn (Source.ofList UInt8) p [] = q >>= fun sent => pure ((), sent)) {bytes : Bytes}
    (h : Accepts (p.mapError .error) [] bytes) : Replied q bytes := by
  obtain ⟨all, rest, hrun⟩ := h
  have hmap := (@runOn_mapError (Source.ofList UInt8) _ _ [] _ Thrown.error p bytes).symm.trans hrun
  obtain ⟨⟨result, left⟩, hp, hresult⟩ := Option.map_eq_some_iff.mp hmap
  cases result with
  | error e => cases hresult
  | ok a =>
      rw [hpq] at hp
      obtain ⟨sent, s', hq, -⟩ := Source.bind_inv hp
      exact ⟨sent, s', hq⟩

section
variable (s : Surroundings) (node : Node) (host : Text) (port : Number)

def UpgradeReplied (hostHeader : Text) (bytes : Bytes) : Prop :=
  s.cases.toLower (node.network.getD "tcp".toList) = "ws".toList →
    Replied (Handshakes.wsHandshake (Bytes.base64 s.wsKey.val) (node.wsPath.getD "/".toList)
      (node.wsHost.getD hostHeader) []) bytes

/-- The reply that a transport does not return without. -/
def TransportReplied (bytes : Bytes) : ConnectPort.Transport → Prop
  | .http => Replied (Handshakes.httpConnect node.credentials host port.toText) bytes
  | .socks5 => Replied (Handshakes.socks5Connect node.credentials host port) bytes
  | .trojan => UpgradeReplied s node (node.sni.getD node.server) bytes
  | .vless => UpgradeReplied s node node.server bytes
  | .vmess => UpgradeReplied s node node.server bytes
  | _ => True

variable {s node host port} {bytes : Bytes}

theorem upgrade_replied {hostHeader : Text} (h : Accepts (upgrade s node hostHeader) [] bytes) :
    UpgradeReplied s node hostHeader bytes := by
  intro hws
  rw [upgrade, if_pos hws] at h
  exact replied_of_accepts (runOn_wsHandshake _ _ _ _) h

theorem transport_replied {t : ConnectPort.Transport}
    (h : Accepts (behindSocket s node host port t) [] bytes) :
    TransportReplied s node host port bytes t := by
  cases t with
  | http => exact replied_of_accepts (runOn_httpConnect _ _ _) h
  | socks5 => exact replied_of_accepts (runOn_socks5Connect _ _ _) h
  | trojan => exact upgrade_replied h
  | vless => exact upgrade_replied (accepts_first h)
  | vmess => exact upgrade_replied (accepts_first h)
  | tcp => trivial
  | ss => trivial
  | native => trivial

/-- On a socket that stays open, `connectThrough` is fulfilled only by a server that has sent the
reply of the transport. -/
theorem fulfilled_replied {t : ConnectPort.Transport}
    (ht : ConnectPort.connectThrough s.cases s.hasNativeConnector (some node.toUpstream) port =
      some t) {events : List NetworkEvent} (hends : ∀ e ∈ events, ¬ e.Ends)
    (hf : (connection s (some node) host port events).progress = .fulfilled) :
    TransportReplied s node host port (received events) t := by
  by_cases hn : t = .native
  · subst hn
    trivial
  · have hstart : connectThrough s (some node) host port =
        ⟨.connecting, {}, .connecting (behindSocket s node host port t)⟩ := by
      unfold connectThrough
      rw [Option.map_some, ht]
      cases t with
      | native => exact absurd rfl hn
      | _ => rfl
    rw [connection, hstart] at hf
    exact transport_replied (connecting_accepts hends hf)

end

end DshClashProxy.Core.Dialling
