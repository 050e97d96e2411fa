import DshClashProxy.Core.Relay

/-!
# Stopping the server

`stop` closes the listener and leaves the accepted connections alone. So it ends all
relaying exactly when there is none to end: every connection is destroyed already, and none
of them still waits for the target of an absolute-form request.
-/
namespace DshClashProxy.Core.Stop

open Js Js.Text ProxyServer

variable {Node : Type}

/-- A server and the connections it has accepted. -/
structure Accepting (Node : Type) where
  listening : Bool := true
  clients : List (Conn Node) := []

inductive Move where
  | accept
  | client (i : Nat) (event : Event)

/-- A closed listener accepts nothing, and a destroyed socket emits no data. -/
def Possible (s : Accepting Node) : Move → Prop
  | .accept => s.listening = true
  | .client i (.data _) => ∀ c, s.clients[i]? = some c → c.destroyed = false
  | .client _ _ => True

variable (server : ProxyServer Node)

def Accepting.step (s : Accepting Node) : Move → Accepting Node
  | .accept => { s with clients := s.clients ++ [{}] }
  | .client i event => { s with clients := s.clients.modify i (server.step · event) }

/-- `stop`: the listener is closed. -/
def Accepting.stop (s : Accepting Node) : Accepting Node := { s with listening := false }

inductive Later : Accepting Node → Accepting Node → Prop where
  | refl (s : Accepting Node) : Later s s
  | move {s t : Accepting Node} (m : Move) : Later s t → Possible t m → Later s (t.step server m)

/-- What was passed to the faces and written to the clients. -/
def Accepting.traffic (s : Accepting Node) : List (Bytes × Bytes) :=
  s.clients.map fun c => (c.toFace, c.toClient)

/-- Every connection is destroyed once `stop` has returned, and no byte moves any more. -/
structure Stops (s : Accepting Node) : Prop where
  destroyed : ∀ c ∈ s.stop.clients, c.destroyed = true
  silent : ∀ t, Later server s.stop t → t.traffic = s.stop.traffic

/-- An absolute-form request whose target is being connected. -/
def Awaited (c : Conn Node) : Prop :=
  ∃ node host port outbound, c.stage = .connecting node host port (.absolute outbound)

/-- A destroyed connection that awaits no target of an absolute-form request. -/
structure Still (c : Conn Node) : Prop where
  destroyed : c.destroyed = true
  unawaited : ¬ Awaited c

/-! ## Still connections stay still -/

/-- Still, and no byte has moved since. -/
structure Unmoved (c c' : Conn Node) : Prop where
  still : Still c'
  toFace : c'.toFace = c.toFace
  toClient : c'.toClient = c.toClient

variable {server}

theorem write_of_destroyed {c : Conn Node} (h : c.destroyed = true) (b : Bytes) :
    c.write b = c := if_pos h

theorem unmoved_end {c : Conn Node} (h : Still c) (b : Bytes) : Unmoved c (c.end b) := by
  rw [Conn.end, write_of_destroyed h.destroyed]
  refine ⟨⟨h.destroyed, ?_⟩, rfl, rfl⟩
  intro h
  obtain ⟨_, _, _, _, hs⟩ := h
  cases hs

theorem unmoved_opened {c : Conn Node} (h : Still c) {node : Option Node} {host : Text}
    {port : Number} {reply : Reply} (hs : c.stage = .connecting node host port reply) :
    Unmoved c (c.opened reply) := by
  have hrelaying : Unmoved c (c.setStage .relaying) := by
    refine ⟨⟨h.destroyed, ?_⟩, rfl, rfl⟩
    intro h
    obtain ⟨_, _, _, _, hs⟩ := h
    cases hs
  cases reply with
  | socks5 rest =>
      have hu : c.unshift rest = c := by
        unfold Conn.unshift
        rw [hs]
      rw [Conn.opened, write_of_destroyed h.destroyed, hu]
      exact hrelaying
  | connect =>
      rw [Conn.opened, write_of_destroyed h.destroyed]
      exact hrelaying
  | absolute outbound => exact absurd ⟨node, host, port, outbound, hs⟩ h.unawaited

theorem unmoved_refused {c : Conn Node} (h : Still c) (reply : Reply) :
    Unmoved c (c.refused reply) := by
  cases reply with
  | socks5 rest => exact unmoved_end h _
  | connect => exact unmoved_end h _
  | absolute outbound => exact unmoved_end h _

theorem unmoved_pump {c : Conn Node} (h : Still c) (chunk : Bytes) : Unmoved c (c.pump chunk) := by
  rw [Conn.pump, if_pos h.destroyed]
  exact ⟨h, rfl, rfl⟩

theorem unmoved_destroy (c : Conn Node) : Unmoved c c.destroy := by
  refine ⟨⟨rfl, ?_⟩, rfl, rfl⟩
  intro h
  obtain ⟨_, _, _, _, hs⟩ := h
  cases hs

/-- Without data from the client a still connection stays still and moves no byte. -/
theorem unmoved_step {c : Conn Node} (h : Still c) {e : Event} (he : ∀ chunk, e ≠ .data chunk) :
    Unmoved c (server.step c e) := by
  have hself : Unmoved c c := ⟨h, rfl, rfl⟩
  cases e with
  | data chunk => exact absurd rfl (he chunk)
  | connected =>
      simp only [step]
      split
      · next hs => exact unmoved_opened h hs
      · exact hself
  | connectFailed =>
      simp only [step]
      split
      · exact unmoved_refused h _
      · exact hself
  | upstream chunk =>
      simp only [step]
      split
      · exact unmoved_pump h chunk
      · exact unmoved_pump h chunk
      · exact hself
  | upstreamEnd =>
      simp only [step]
      split
      · exact ⟨⟨h.destroyed, h.unawaited⟩, rfl, rfl⟩
      · exact ⟨⟨h.destroyed, h.unawaited⟩, rfl, rfl⟩
      · exact hself
  | upstreamError =>
      simp only [step]
      split
      · exact ⟨⟨rfl, h.unawaited⟩, rfl, rfl⟩
      · exact ⟨⟨rfl, h.unawaited⟩, rfl, rfl⟩
      · exact hself
  | clientEnd =>
      simp only [step]
      split
      · exact ⟨⟨h.destroyed, h.unawaited⟩, rfl, rfl⟩
      · exact hself
  | clientClose =>
      simp only [step]
      split
      · exact ⟨⟨rfl, h.unawaited⟩, rfl, rfl⟩
      · exact ⟨⟨rfl, h.unawaited⟩, rfl, rfl⟩
  | clientError =>
      simp only [step]
      split
      · exact unmoved_destroy c
      · exact unmoved_destroy c
      · exact ⟨⟨h.destroyed, h.unawaited⟩, rfl, rfl⟩
      · exact hself

theorem unmoved_trans {a b c : Conn Node} (h : Unmoved a b) (h' : Unmoved b c) : Unmoved a c :=
  ⟨h'.still, h'.toFace.trans h.toFace, h'.toClient.trans h.toClient⟩

/-- A change of one entry keeps two lists related if it keeps that entry related. -/
theorem forall₂_modify {α : Type} {R : α → α → Prop} {as bs : List α} (h : List.Forall₂ R as bs)
    {i : Nat} {f : α → α} (hf : ∀ a b, R a b → bs[i]? = some b → R a (f b)) :
    List.Forall₂ R as (bs.modify i f) := by
  induction h generalizing i with
  | nil => cases i <;> exact .nil
  | cons hr ht ih =>
      cases i with
      | zero => exact .cons (hf _ _ hr rfl) ht
      | succ i => exact .cons hr (ih hf)

/-- Nothing is accepted after the stop, and the connections that were accepted stay still. -/
theorem unmoved_later {s t : Accepting Node} (hs : ∀ c ∈ s.clients, Still c)
    (h : Later server s.stop t) :
    t.listening = false ∧ List.Forall₂ Unmoved s.clients t.clients := by
  induction h with
  | refl => exact ⟨rfl, List.forall₂_same.mpr fun c hc => ⟨hs c hc, rfl, rfl⟩⟩
  | @move t m _ hp ih =>
      obtain ⟨hl, hf⟩ := ih
      cases m with
      | accept => exact absurd (hl.symm.trans hp) (by decide)
      | client i e =>
          refine ⟨hl, forall₂_modify hf fun a b hab hb => unmoved_trans hab ?_⟩
          refine unmoved_step hab.still fun chunk he => ?_
          subst he
          have hd : b.destroyed = false := hp b hb
          rw [hab.still.destroyed] at hd
          cases hd

theorem stops_of_still {s : Accepting Node} (hs : ∀ c ∈ s.clients, Still c) : Stops server s := by
  refine ⟨fun c hc => (hs c hc).destroyed, fun t ht => ?_⟩
  obtain ⟨_, hf⟩ := unmoved_later hs ht
  change t.clients.map _ = s.clients.map _
  generalize s.clients = as, t.clients = bs at hf
  induction hf with
  | nil => rfl
  | cons hr _ ih => rw [List.map_cons, List.map_cons, ih, hr.toFace, hr.toClient]

/-! ## Requests that are still awaited -/

/-- The head that an awaited request will send is not empty. -/
def Loaded (c : Conn Node) : Prop :=
  ∀ node host port outbound, c.stage = .connecting node host port (.absolute outbound) →
    outbound ≠ []

theorem loaded_of_stage {c : Conn Node}
    (h : ∀ node host port outbound, c.stage ≠ .connecting node host port (.absolute outbound)) :
    Loaded c := fun node host port outbound hs => absurd hs (h node host port outbound)

theorem outbound_ne_nil (method : Text) (url : Url) (lines : List Text) :
    outbound method url lines ≠ [] := by
  intro h
  have hd := congrArg Bytes.utf8Decode h
  rw [outbound, Bytes.utf8Decode_utf8Encode] at hd
  have hc := (List.append_eq_nil_iff.mp hd).2
  exact absurd hc (by decide)

theorem loaded_end (c : Conn Node) (b : Bytes) : Loaded (c.end b) :=
  loaded_of_stage fun _ _ _ _ hs => by cases hs

theorem loaded_destroy (c : Conn Node) : Loaded c.destroy :=
  loaded_of_stage fun _ _ _ _ hs => by cases hs

theorem loaded_setStage (c : Conn Node) {stage : Stage Node}
    (h : ∀ node host port outbound, stage ≠ .connecting node host port (.absolute outbound)) :
    Loaded (c.setStage stage) := loaded_of_stage h

theorem loaded_handleConnect (c : Conn Node) (target : Text) :
    Loaded (server.handleConnect c target) := by
  unfold handleConnect
  split
  · exact loaded_end _ _
  · next host port _ =>
      simp only
      split
      · exact loaded_end _ _
      · exact loaded_setStage _ fun _ _ _ _ hs => by cases hs

theorem loaded_handleAbsolute (c : Conn Node) (method target : Text) (lines : List Text) :
    Loaded (server.handleAbsolute c method target lines) := by
  unfold handleAbsolute
  split
  · exact loaded_end _ _
  · next url _ =>
      simp only
      split
      · exact loaded_end _ _
      · intro node host port outbound hs
        cases hs
        exact outbound_ne_nil method url lines

theorem loaded_handleHead (c : Conn Node) (head : Text) : Loaded (server.handleHead c head) := by
  unfold handleHead
  simp only
  split
  · split
    · exact loaded_handleConnect c _
    · exact loaded_destroy c
  · split
    · split
      · exact loaded_handleAbsolute c _ _ _
      · exact loaded_end _ _
    · exact loaded_end _ _

theorem loaded_readHttpHead (c : Conn Node) (buffer : Bytes) :
    Loaded (server.readHttpHead c buffer) := by
  unfold readHttpHead
  split
  · exact loaded_setStage _ fun _ _ _ _ hs => by cases hs
  · exact loaded_handleHead _ _

theorem loaded_handleSocks5Request (c : Conn Node) (header : Bytes) :
    Loaded (server.handleSocks5Request c header) := by
  unfold handleSocks5Request
  split
  · exact loaded_destroy c
  · simp only
    split
    · exact loaded_end _ _
    · split
      · exact loaded_end _ _
      · exact loaded_setStage _ fun _ _ _ _ hs => by cases hs

theorem loaded_handleSocks5 (c : Conn Node) (greeting : Bytes) :
    Loaded (handleSocks5 c greeting) := by
  unfold handleSocks5
  split
  · exact loaded_setStage _ fun _ _ _ _ hs => by cases hs
  · exact loaded_end _ _

theorem loaded_data {c : Conn Node} (h : Loaded c) (chunk : Bytes) :
    Loaded (server.data c chunk) := by
  unfold data
  split
  · unfold handle
    split
    · exact loaded_handleSocks5 c chunk
    · exact loaded_readHttpHead c chunk
  · exact loaded_handleSocks5Request c chunk
  · exact loaded_readHttpHead c _
  · exact h
  · exact h

theorem loaded_refused (c : Conn Node) (reply : Reply) : Loaded (c.refused reply) := by
  cases reply with
  | socks5 rest => exact loaded_end _ _
  | connect => exact loaded_end _ _
  | absolute outbound => exact loaded_end _ _

theorem loaded_opened (c : Conn Node) (reply : Reply) : Loaded (c.opened reply) := by
  cases reply with
  | socks5 rest => exact loaded_setStage _ fun _ _ _ _ hs => by cases hs
  | connect => exact loaded_setStage _ fun _ _ _ _ hs => by cases hs
  | absolute outbound => exact loaded_of_stage fun _ _ _ _ hs => by cases hs

theorem loaded_pump {c : Conn Node} (h : Loaded c) (chunk : Bytes) : Loaded (c.pump chunk) := by
  unfold Conn.pump
  split
  · exact h
  · exact h

theorem loaded_step {c : Conn Node} (h : Loaded c) (e : Event) : Loaded (server.step c e) := by
  cases e with
  | data chunk => exact loaded_data h chunk
  | connected =>
      simp only [step]
      split
      · exact loaded_opened c _
      · exact h
  | connectFailed =>
      simp only [step]
      split
      · exact loaded_refused c _
      · exact h
  | upstream chunk =>
      simp only [step]
      split
      · exact loaded_pump h chunk
      · exact loaded_pump h chunk
      · exact h
  | clientError =>
      simp only [step]
      split
      · exact loaded_destroy c
      · exact loaded_destroy c
      · exact h
      · exact h
  | upstreamEnd => simp only [step]; split <;> exact h
  | upstreamError => simp only [step]; split <;> exact h
  | clientEnd => simp only [step]; split <;> exact h
  | clientClose => simp only [step]; split <;> exact h

theorem loaded_later {s : Accepting Node} (h : Later server {} s) : ∀ c ∈ s.clients, Loaded c := by
  induction h with
  | refl => simp
  | @move t m _ _ ih =>
      cases m with
      | accept =>
          intro c hc
          rcases List.mem_append.mp hc with hc | hc
          · exact ih c hc
          · rw [List.mem_singleton.mp hc]
            exact loaded_of_stage fun _ _ _ _ hs => by cases hs
      | client i e =>
          intro c hc
          obtain ⟨j, hj⟩ := List.mem_iff_getElem?.mp hc
          change (t.clients.modify i (server.step · e))[j]? = some c at hj
          rw [List.getElem?_modify] at hj
          obtain ⟨b, hb, rfl⟩ := Option.map_eq_some_iff.mp hj
          have hl := ih b (List.mem_of_getElem? hb)
          split
          · exact loaded_step hl e
          · exact hl

/-- In every state that the server can get to, `stop` ends all relaying exactly when every
accepted connection is still. -/
theorem stop_ends_relaying_iff (server : ProxyServer Node) {s : Accepting Node}
    (h : Later server {} s) : Stops server s ↔ ∀ c ∈ s.clients, Still c := by
  refine ⟨fun hs c hc => ⟨hs.destroyed c hc, ?_⟩, stops_of_still⟩
  rintro ⟨node, host, port, outbound, hstage⟩
  have hne := loaded_later h c hc node host port outbound hstage
  obtain ⟨i, hi⟩ := List.mem_iff_getElem?.mp hc
  -- the target is reached after the stop
  have hsilent := hs.silent _ (.move (.client i .connected) (.refl _) trivial)
  have hmodify : ((s.clients.modify i (server.step · .connected)).map
      fun c => (c.toFace, c.toClient))[i]? = (s.clients.map fun c => (c.toFace, c.toClient))[i]? :=
    congrArg (·[i]?) hsilent
  rw [List.getElem?_map, List.getElem?_map, List.getElem?_modify_eq, hi] at hmodify
  have hface : (server.step c .connected).toFace = c.toFace :=
    (Prod.mk.inj (Option.some.inj hmodify)).1
  have hstep : (server.step c .connected).toFace = c.toFace ++ outbound := by
    simp only [step, hstage]
    rfl
  rw [hstep] at hface
  exact hne (List.append_right_eq_self.mp hface)

/-- One client, which has gone. -/
def left : Accepting Unit :=
  (Accepting.step Relay.directServer {} .accept).step Relay.directServer (.client 0 .clientClose)

theorem later_left : Later Relay.directServer {} left := by
  refine .move _ (.move _ (.refl _) rfl) trivial

theorem left_stops : Stops Relay.directServer left := by
  refine (stop_ends_relaying_iff Relay.directServer later_left).mpr fun c hc => ?_
  obtain rfl := List.mem_singleton.mp hc
  exact ⟨rfl, fun ⟨_, _, _, _, hs⟩ => by cases hs⟩

/-- One client, whose tunnel is open. -/
def tunnelled : Accepting Unit :=
  ((Accepting.step Relay.directServer {} .accept).step Relay.directServer
    (.client 0 (.data Relay.connectHead.encode))).step Relay.directServer (.client 0 .connected)

theorem later_tunnelled : Later Relay.directServer {} tunnelled := by
  refine .move _ (.move _ (.move _ (.refl _) rfl) fun c hc => ?_) trivial
  obtain rfl := Option.some.inj hc
  rfl

/-- What the target sends after the stop still reaches the client. -/
theorem tunnel_survives_stop :
    ¬ ∀ (server : ProxyServer Unit) (s : Accepting Unit), Later server {} s →
      Stops server s := by
  intro h
  have hs := h Relay.directServer tunnelled later_tunnelled
  have hsilent := hs.silent _ (.move (.client 0 (.upstream [0x17])) (.refl _) trivial)
  have hlength := congrArg (fun t => (t.map fun p => p.2.length)) hsilent
  exact absurd hlength (by decide +kernel)

end DshClashProxy.Core.Stop
