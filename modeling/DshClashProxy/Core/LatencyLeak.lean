import DshClashProxy.Core.Dialling

/-!
# Sockets of a latency test

`measureLatency` lets `connectThrough` race a timer and closes the face that wins. A transport
function that throws has no face yet, and one that the timer overtakes hands its face to nobody.
Then the socket stays open until its peer closes it.
-/
namespace DshClashProxy.Core.LatencyLeak

open Js Connectors Dialling

/-! ## The race -/

inductive Result where
  | delay
  | null
  deriving DecidableEq

/-- A call of `measureLatency`. -/
structure Measurement where
  connection : Connection
  timedOut : Bool := false
  result : Option Result := none

inductive Event where
  | network (e : NetworkEvent)
  | timeout
  deriving DecidableEq

/-- The first to settle decides the race, and the face that wins is closed. -/
def Measurement.settle (m : Measurement) : Measurement :=
  match m.result, m.connection.progress with
  | none, .fulfilled => { m with connection := m.connection.close, result := some .delay }
  | none, .rejected => { m with result := some .null }
  | _, _ => m

def Measurement.step (m : Measurement) : Event → Measurement
  | .network e => { m with connection := m.connection.step e }.settle
  | .timeout => { m with timedOut := true, result := m.result.or (some .null) }

/-- The promise of `connectThrough` and the timer have both settled. -/
def Measurement.Settled (m : Measurement) : Prop :=
  m.connection.progress.Settled ∧ m.timedOut = true

section
variable (s : Surroundings) (node : Option Node) (host : Text) (port : Number)

/-- The call after these events. -/
def measureLatency (events : List Event) : Measurement :=
  events.foldl Measurement.step
    (Measurement.settle { connection := connectThrough s node host port })

end

/-- What happens to the socket before the timer fires. -/
def beforeTimeout : List Event → List NetworkEvent
  | .network e :: rest => e :: beforeTimeout rest
  | _ => []

def Event.Ends : Event → Prop
  | network e => e.Ends
  | timeout => False

section
variable (s : Surroundings) (node : Option Node) (host : Text) (port : Number)

/-- Once both promises have settled, the socket that was opened has been closed. -/
def LeaksNothing (events : List Event) : Prop :=
  (measureLatency s node host port events).Settled →
    ¬ (measureLatency s node host port events).connection.Open

/-- No socket is opened, or the network closes it, or the transport function returns its face
before the timer fires. -/
def Spared (events : List Event) : Prop :=
  (∀ t, ConnectPort.connectThrough s.cases s.hasNativeConnector (node.map Node.toUpstream) port =
    some t → t = .native) ∨
  (∃ e ∈ events, e.Ends) ∨
  (connection s node host port (beforeTimeout events)).progress = .fulfilled

end

/-! ## The race and the socket -/

/-- Before the timer fires, the call has the connection as it would be by itself, and has closed
it when it has its face. -/
def Follows (m : Measurement) (k : Connection) : Prop :=
  match k.progress with
  | .fulfilled => ¬ m.connection.Open ∧ m.result = some .delay
  | .rejected => m.connection = k ∧ m.result = some .null
  | _ => m.connection = k ∧ m.result = none

/-- The first to settle is taken notice of at once. -/
theorem follows_settle (k : Connection) (timedOut : Bool) :
    Follows (Measurement.settle { connection := k, timedOut }) k := by
  cases hp : k.progress with
  | connecting behind => simp [Follows, Measurement.settle, hp]
  | waiting r next => simp [Follows, Measurement.settle, hp]
  | fulfilled => simp [Follows, Measurement.settle, hp, Connection.not_open_close]
  | rejected => simp [Follows, Measurement.settle, hp]

theorem settle_decided {m : Measurement} (h : m.result ≠ none) : m.settle = m := by
  unfold Measurement.settle
  split
  · next hr _ => exact absurd hr h
  · next hr _ => exact absurd hr h
  · rfl

theorem follows_step {m : Measurement} {k : Connection} (h : Follows m k) (e : NetworkEvent) :
    Follows (m.step (.network e)) (k.step e) := by
  have hkept : k.progress.Settled → (k.step e).progress = k.progress :=
    fun hs => Connection.settled_step hs e
  cases hp : k.progress with
  | fulfilled =>
      rw [Follows, hp] at h
      rw [hp] at hkept
      obtain ⟨hopen, hresult⟩ := h
      have hstep : m.step (.network e) = m := by
        rw [Measurement.step, Connection.step_of_not_open hopen]
        exact settle_decided (by rw [hresult]; exact Option.some_ne_none _)
      rw [Follows, hkept trivial, hstep]
      exact ⟨hopen, hresult⟩
  | rejected =>
      rw [Follows, hp] at h
      rw [hp] at hkept
      obtain ⟨rfl, hresult⟩ := h
      have hstep : m.step (.network e) = { m with connection := m.connection.step e } :=
        settle_decided (by rw [hresult]; exact Option.some_ne_none _)
      rw [Follows, hkept trivial, hstep]
      exact ⟨rfl, hresult⟩
  | connecting _ | waiting _ _ =>
      rw [Follows, hp] at h
      obtain ⟨rfl, hresult⟩ := h
      rw [Measurement.step, hresult]
      exact follows_settle _ _

theorem Follows.open_iff {m : Measurement} {k : Connection} (h : Follows m k) :
    m.connection.Open ↔ k.Open ∧ k.progress ≠ .fulfilled := by
  cases hp : k.progress with
  | fulfilled =>
      rw [Follows, hp] at h
      exact iff_of_false h.1 fun hn => hn.2 rfl
  | rejected | connecting _ | waiting _ _ =>
      rw [Follows, hp] at h
      rw [h.1]
      exact (and_iff_left nofun).symm

/-- Once the race is decided, only the network closes the socket. -/
theorem decided_step {m : Measurement} (h : m.result ≠ none) (e : Event) :
    (m.step e).result ≠ none ∧ ((m.step e).connection.Open ↔ m.connection.Open ∧ ¬ e.Ends) := by
  cases e with
  | network e =>
      have hstep : m.step (.network e) = { m with connection := m.connection.step e } :=
        settle_decided h
      rw [hstep]
      exact ⟨h, Connection.open_step m.connection e⟩
  | timeout =>
      refine ⟨?_, (and_iff_left id).symm⟩
      cases hr : m.result with
      | none => exact absurd hr h
      | some result => simp [Measurement.step, hr]

theorem decided_run {m : Measurement} (h : m.result ≠ none) (events : List Event) :
    (events.foldl Measurement.step m).connection.Open ↔
      m.connection.Open ∧ ∀ e ∈ events, ¬ e.Ends := by
  induction events generalizing m with
  | nil => simp
  | cons e rest ih =>
      obtain ⟨hresult, hopen⟩ := decided_step h e
      rw [List.foldl_cons, ih hresult, hopen, List.forall_mem_cons, and_assoc]

/-- A run is what comes before the timer, and then nothing or the timer and the rest. -/
theorem exists_rest (events : List Event) :
    ∃ rest, events = (beforeTimeout events).map .network ++ rest ∧
      (rest = [] ∨ ∃ later, rest = .timeout :: later) := by
  induction events with
  | nil => exact ⟨[], rfl, .inl rfl⟩
  | cons e events ih =>
      cases e with
      | network e =>
          obtain ⟨rest, he, hrest⟩ := ih
          exact ⟨rest, by rw [beforeTimeout, List.map_cons, List.cons_append, ← he], hrest⟩
      | timeout => exact ⟨_, rfl, .inr ⟨events, rfl⟩⟩

section
variable (s : Surroundings) (node : Option Node) (host : Text) (port : Number)

theorem follows_run (events : List NetworkEvent) :
    Follows (measureLatency s node host port (events.map .network))
      (connection s node host port events) := by
  induction events using List.reverseRecOn with
  | nil => exact follows_settle _ _
  | append_singleton events e ih =>
      rw [measureLatency, connection, List.map_append, List.foldl_append, List.foldl_append]
      exact follows_step ih e

/-- When the socket is open, whether or not the promises have settled. -/
theorem measureLatency_open (events : List Event) :
    (measureLatency s node host port events).connection.Open ↔
      (connectThrough s node host port).Open ∧ (∀ e ∈ events, ¬ e.Ends) ∧
        (connection s node host port (beforeTimeout events)).progress ≠ .fulfilled := by
  obtain ⟨rest, hevents, hrest⟩ := exists_rest events
  generalize beforeTimeout events = before at hevents ⊢
  have hfollows := follows_run s node host port before
  have hopen := hfollows.open_iff.trans
    (and_congr_left fun _ => connection_open s node host port before)
  have hends : (∀ e ∈ events, ¬ e.Ends) ↔ (∀ e ∈ before, ¬ e.Ends) ∧ ∀ e ∈ rest, ¬ e.Ends := by
    rw [hevents, List.forall_mem_append, List.forall_mem_map]
    rfl
  rw [hends]
  rcases hrest with rfl | ⟨later, rfl⟩
  · rw [List.append_nil] at hevents
    rw [hevents, hopen]
    simp [and_assoc]
  · set m := measureLatency s node host port (before.map .network) with hm
    have hrun : measureLatency s node host port events =
        later.foldl Measurement.step (m.step .timeout) := by
      rw [hevents, hm, measureLatency, List.foldl_append, List.foldl_cons]
      rfl
    have hdecided : (m.step .timeout).result ≠ none := by
      cases hr : m.result <;> simp [Measurement.step, hr]
    have hsame : (m.step .timeout).connection = m.connection := rfl
    rw [hrun, decided_run hdecided, hsame, hopen, List.forall_mem_cons]
    constructor
    · rintro ⟨⟨⟨ho, hb⟩, hf⟩, hl⟩
      exact ⟨ho, ⟨hb, id, hl⟩, hf⟩
    · rintro ⟨ho, ⟨hb, -, hl⟩, hf⟩
      exact ⟨⟨⟨ho, hb⟩, hf⟩, hl⟩

/-- The latency test closes what it opens exactly when it opens nothing, the network closes the
socket, or the face is there before the timer fires. -/
theorem leaksNothing_iff (events : List Event) :
    LeaksNothing s node host port events ↔
      ((measureLatency s node host port events).Settled → Spared s node host port events) := by
  refine imp_congr_right fun _ => ?_
  rw [measureLatency_open, connectThrough_open, Spared]
  by_cases hf : (connection s node host port (beforeTimeout events)).progress = .fulfilled
  · simp [hf]
  · simp only [hf, ne_eq, not_false_eq_true, and_true, or_false]
    rw [not_and_or]
    simp only [not_exists, not_and, not_not, not_forall, exists_prop]

end

/-- A platform without the native connector, where nothing is left to chance. -/
def plainSurroundings : Surroundings where
  cases := .ascii
  hasNativeConnector := false
  ss := Shadowsocks.plain
  vmess := VmessHeader.plainCrypto
  salt := Shadowsocks.zeros
  wsKey := Shadowsocks.zeros 16
  reqKey := Shadowsocks.zeros 16
  reqIV := Shadowsocks.zeros 16
  responseHeader := 0x5a
  padding := ⟨2, Shadowsocks.zeros 2⟩
  draw := ⟨0x68000000, Shadowsocks.zeros 4, Shadowsocks.zeros 8⟩

def socks5Node : Node := { type := "socks5".toList, port := 1080, server := "proxy".toList }

/-- The server takes none of the offered methods and keeps the connection. -/
def refusal : List Event :=
  [.network .connected, .network .written, .network (.data [0x05, 0xff]), .timeout]

/-- The test fails at once, and its socket is open when the timer has fired. -/
theorem refused_left_open :
    ¬ ∀ (s : Surroundings) (node : Option Node) (host : Text) (port : Number)
      (events : List Event), LeaksNothing s node host port events := by
  intro h
  exact h plainSurroundings (some socks5Node) "a".toList 80 refusal ⟨trivial, rfl⟩ (.inr rfl)

end DshClashProxy.Core.LatencyLeak
