import DshClashProxy.Core.Routing
import DshClashProxy.Core.VmessSession

/-!
# From the client to the target's server

One connection of the proxy server whose face is a VMess session: what the client sends is written
to the face, `pumpInto` takes the chunks that the face yields, and the face is closed with the
client's side. Whatever the order of events on either side, the server of the session reads what the
client sent, and the client what it answers.
-/
namespace DshClashProxy.Core.EndToEnd

open Js Js.Text Lib.Messages ProxyServer EncodeAddr
open Routing (Site Client Stands Sound Quiet Passing)
open VmessSession (Tunnel Keys Message Going Taken Delivers connected)
open Vmess (Block parts chunkCount)
open VmessHeader (Crypto Command CommandArgs Padding Draw Plain addressOf)
open InboundHost (SpellsGroup)

variable {Node : Type} {crypto : Crypto} {cmdKey : Block} {keys : Keys}

/-- The loop of `pumpInto` runs. -/
def pumping : Stage Node → Bool
  | .relaying => true
  | .answering => true
  | _ => false

/-- A connection and the session that its target is reached through. The last field is history: what
came in behind the request before there was a face. -/
structure Path (Node : Type) (crypto : Crypto) (cmdKey : Block) (keys : Keys) where
  client : Client Node := {}
  tunnel : Tunnel crypto cmdKey keys
  missed : Bytes := []

inductive Turn where
  /-- An event of the client, or the end of the connect. -/
  | event (e : Event)
  /-- `pumpInto` takes what the face yields next. -/
  | pump
  /-- A turn of the server behind the session. -/
  | server (turn : VmessSession.Turn)

/-- The session is that of one target. -/
structure Target where
  host : Text
  port : Number

/-- What is passed to the face is one write. -/
def Path.offer (p : Path Node crypto cmdKey keys) (client : Client Node) :
    Tunnel crypto cmdKey keys :=
  match client.conn.toFace.drop p.client.conn.toFace.length with
  | [] => p.tunnel
  | data => p.tunnel.step (.write data)

/-- After an event the face has been passed what the client sent, or it has been closed. -/
def Path.passed (p : Path Node crypto cmdKey keys) (client : Client Node) :
    Path Node crypto cmdKey keys where
  client := client
  tunnel :=
    if client.conn.faceClosed && !p.client.conn.faceClosed then (p.offer client).step .close
    else p.offer client
  missed := if pumping p.client.conn.stage then p.missed else p.client.conn.behind

/-- What the face yielded is written to the client, or ends its socket. -/
def Path.yielded (p : Path Node crypto cmdKey keys) (site : Site) (current : Option Node)
    (tunnel : Tunnel crypto cmdKey keys) : Path Node crypto cmdKey keys where
  client :=
    match tunnel.down.received.drop p.tunnel.down.received.length with
    | some chunk :: _ => p.client.step site current (.upstream chunk)
    | none :: _ => p.client.step site current .upstreamEnd
    | [] => p.client
  tunnel := tunnel
  missed := p.missed

/-- Chunks reach the client by `pumpInto` alone, the connect ends for the target of the session
alone, and a socket that has ended or closed emits no data. -/
def Path.step (site : Site) (current : Option Node) (target : Target)
    (p : Path Node crypto cmdKey keys) : Turn → Path Node crypto cmdKey keys
  | .event (.upstream _) => p
  | .event (.data chunk) =>
      if p.client.conn.faceClosed then p
      else p.passed (p.client.step site current (.data chunk))
  | .event .connected =>
      if p.client.conn.extracted = some (target.host, target.port) then
        p.passed (p.client.step site current .connected)
      else p
  | .event e => p.passed (p.client.step site current e)
  | .pump =>
      if pumping p.client.conn.stage then p.yielded site current (p.tunnel.step .read) else p
  | .server .serve => { p with tunnel := p.tunnel.step .serve }
  | .server (.answer data) => { p with tunnel := p.tunnel.step (.answer data) }
  | .server .finish => { p with tunnel := p.tunnel.step .finish }
  | .server _ => p

def Path.run (site : Site) (current : Option Node) (target : Target)
    (p : Path Node crypto cmdKey keys) (turns : List Turn) : Path Node crypto cmdKey keys :=
  turns.foldl (Path.step site current target) p

/-! ## What passes to the face -/

section
variable {site : Site} {current : Option Node}

/-- An event adds to what was passed to the face. -/
theorem toFace_front {k : Client Node} (h : Stands site k) (e : Event) :
    k.conn.toFace <+: (k.step site current e).conn.toFace := by
  have hempty : ∀ {told}, Quiet k.conn told →
      k.conn.toFace <+: (k.step site current e).conn.toFace := by
    intro told hq
    rw [hq.toFace]
    exact List.nil_prefix
  have hpump : ∀ chunk, (k.conn.pump chunk).toFace = k.conn.toFace := by
    intro chunk
    rw [Conn.pump]
    split <;> rfl
  change _ <+: ((site.server current).step k.conn e).toFace
  cases hs : k.conn.stage with
  | first =>
      simp only [Stands, hs] at h
      exact hempty h.1
  | head buffer =>
      simp only [Stands, hs] at h
      exact hempty h.1
  | request =>
      simp only [Stands, hs] at h
      exact hempty h.1
  | connecting node host port reply =>
      simp only [Stands, hs] at h
      exact hempty h.1
  | relaying =>
      cases e with
      | data chunk =>
          rw [ProxyServer.step, data, hs]
          exact List.prefix_append _ _
      | upstream chunk =>
          simp only [ProxyServer.step, hs]
          exact (hpump chunk).symm ▸ List.prefix_rfl
      | _ =>
          simp only [ProxyServer.step, hs]
          exact List.prefix_rfl
  | answering =>
      cases e with
      | data chunk =>
          rw [ProxyServer.step, data, hs]
          exact List.prefix_rfl
      | upstream chunk =>
          simp only [ProxyServer.step, hs]
          exact (hpump chunk).symm ▸ List.prefix_rfl
      | _ =>
          simp only [ProxyServer.step, hs]
          exact List.prefix_rfl
  | done =>
      cases e with
      | data chunk =>
          rw [ProxyServer.step, data, hs]
          exact List.prefix_rfl
      | _ =>
          simp only [ProxyServer.step, hs]
          exact List.prefix_rfl

/-- Only a chunk of the face adds to what the face has yielded. -/
theorem offered_same {k : Client Node} {e : Event} (he : ∀ chunk, e ≠ .upstream chunk) :
    (k.step site current e).offered = k.offered := by
  have hy : Routing.yielded k.conn.stage e = [] := by
    cases e with
    | upstream chunk => exact absurd rfl (he chunk)
    | _ => cases k.conn.stage <;> rfl
  change k.offered ++ Routing.yielded k.conn.stage e = _
  rw [hy, List.append_nil]

theorem offered_upstream {k : Client Node} (hs : pumping k.conn.stage = true) (chunk : Bytes) :
    (k.step site current (.upstream chunk)).offered = k.offered ++ chunk := by
  change k.offered ++ Routing.yielded k.conn.stage (.upstream chunk) = _
  cases hstage : k.conn.stage with
  | relaying => rfl
  | answering => rfl
  | _ =>
      rw [hstage] at hs
      cases hs

/-- A chunk on which a connection names its target leaves it without a face. -/
theorem heard_not_pumping {c : Conn Node} {sent : List Bytes}
    (h : Routing.Heard site current sent c) : pumping c.stage = false := by
  cases h with
  | waits buffer stage quiet unnamed http all =>
      rw [stage]
      rfl
  | greets stage quiet unnamed speaks =>
      rw [stage]
      rfl
  | ends told stage quiet tells =>
      rw [stage]
      rfl
  | dials node host port reply stage quiet named permitted speaks =>
      rw [stage]
      rfl

/-- A connection gets its face when its connect ends, and keeps its target from then on. -/
theorem pumping_before {k : Client Node} (h : Stands site k) {e : Event} (he : e ≠ .connected)
    (hp : pumping (k.step site current e).conn.stage = true) :
    pumping k.conn.stage = true ∧ (k.step site current e).conn.extracted = k.conn.extracted := by
  have hpump : ∀ chunk, (k.conn.pump chunk).extracted = k.conn.extracted := by
    intro chunk
    rw [Conn.pump]
    split <;> rfl
  change pumping ((site.server current).step k.conn e).stage = true at hp
  change _ ∧ ((site.server current).step k.conn e).extracted = _
  cases hs : k.conn.stage with
  | relaying =>
      refine ⟨rfl, ?_⟩
      cases e with
      | data chunk =>
          rw [ProxyServer.step, data, hs]
          rfl
      | upstream chunk =>
          simp only [ProxyServer.step, hs]
          exact hpump chunk
      | _ => simp [ProxyServer.step, hs, Conn.pumpEnd]
  | answering =>
      refine ⟨rfl, ?_⟩
      cases e with
      | data chunk =>
          rw [ProxyServer.step, data, hs]
          rfl
      | upstream chunk =>
          simp only [ProxyServer.step, hs]
          exact hpump chunk
      | _ => simp [ProxyServer.step, hs, Conn.pumpEnd]
  | first =>
      simp only [Stands, hs] at h
      cases e with
      | connected => exact absurd rfl he
      | data chunk =>
          have hheard := @Routing.heard_handle Node site current _ h.1 h.2.1 (by simp [hs]) chunk
          rw [ProxyServer.step, data, hs, heard_not_pumping hheard] at hp
          cases hp
      | _ =>
          simp [ProxyServer.step, hs, pumping] at hp
  | head buffer =>
      simp only [Stands, hs] at h
      cases e with
      | connected => exact absurd rfl he
      | data chunk =>
          obtain ⟨hq, hx, -, -, hhttp, hall⟩ := h
          have hheard := @Routing.heard_readHttpHead Node site current _ _ hq hx (by simp [hs])
            (hhttp.more [chunk])
          rw [List.flatten_append, List.flatten_singleton, hall] at hheard
          rw [ProxyServer.step, data, hs, heard_not_pumping hheard] at hp
          cases hp
      | _ => simp [ProxyServer.step, hs, pumping, Conn.destroy] at hp
  | request =>
      simp only [Stands, hs] at h
      cases e with
      | connected => exact absurd rfl he
      | data chunk =>
          have hheard := @Routing.heard_handleSocks5Request Node site current _ _ h.1 h.2.1
            h.2.2.2.2 chunk
          rw [ProxyServer.step, data, hs, heard_not_pumping hheard] at hp
          cases hp
      | _ => simp [ProxyServer.step, hs, pumping, Conn.destroy] at hp
  | connecting node host port reply =>
      cases e with
      | connected => exact absurd rfl he
      | data chunk => simp [ProxyServer.step, data, hs, pumping, Conn.setBehind] at hp
      | connectFailed =>
          cases reply <;> simp [ProxyServer.step, hs, pumping, Conn.refused, Conn.end] at hp
      | _ => simp [ProxyServer.step, hs, pumping] at hp
  | done =>
      cases e with
      | connected => exact absurd rfl he
      | data chunk => simp [ProxyServer.step, data, hs, pumping, Conn.setBehind] at hp
      | _ => simp [ProxyServer.step, hs, pumping] at hp

theorem connected_extracted {k : Client Node} (h : Stands site k) :
    (k.step site current .connected).conn.extracted = k.conn.extracted := by
  change ((site.server current).step k.conn .connected).extracted = _
  cases hs : k.conn.stage with
  | connecting node host port reply =>
      simp only [Stands, hs] at h
      rw [ProxyServer.step, hs]
      exact (Routing.passing_opened h.1).2.1
  | _ => simp only [ProxyServer.step, hs]

/-- While the tunnel is open, what comes in behind the request is passed on. -/
theorem relaying_adds {k : Client Node} (hs : k.conn.stage = .relaying) (e : Event) :
    (k.step site current e).conn.stage = .relaying ∧ ∃ b,
      (k.step site current e).conn.behind = k.conn.behind ++ b ∧
      (k.step site current e).conn.toFace = k.conn.toFace ++ b ∧
      ((∀ chunk, e ≠ .data chunk) → b = []) := by
  have hpump : ∀ chunk, (k.conn.pump chunk).stage = .relaying ∧
      (k.conn.pump chunk).behind = k.conn.behind ∧ (k.conn.pump chunk).toFace = k.conn.toFace := by
    intro chunk
    rw [Conn.pump]
    split <;> exact ⟨hs, rfl, rfl⟩
  have hsame : ((site.server current).step k.conn e).stage = .relaying ∧
      ((site.server current).step k.conn e).behind = k.conn.behind ∧
      ((site.server current).step k.conn e).toFace = k.conn.toFace →
      (k.step site current e).conn.stage = .relaying ∧ ∃ b,
        (k.step site current e).conn.behind = k.conn.behind ++ b ∧
        (k.step site current e).conn.toFace = k.conn.toFace ++ b ∧
        ((∀ chunk, e ≠ .data chunk) → b = []) := by
    rintro ⟨hstage, hbehind, hface⟩
    exact ⟨hstage, [], hbehind.trans (List.append_nil _).symm,
      hface.trans (List.append_nil _).symm, fun _ => rfl⟩
  cases e with
  | data chunk =>
      have hstep : (site.server current).step k.conn (.data chunk) =
          (k.conn.relayed chunk).setBehind (k.conn.behind ++ chunk) := by
        rw [ProxyServer.step, data, hs]
      refine ⟨?_, chunk, ?_, ?_, fun hne => absurd rfl (hne chunk)⟩
      · exact (congrArg Conn.stage hstep).trans hs
      · exact congrArg Conn.behind hstep
      · exact congrArg Conn.toFace hstep
  | upstream chunk =>
      refine hsame ?_
      rw [ProxyServer.step, hs]
      exact hpump chunk
  | _ =>
      refine hsame ?_
      simp [ProxyServer.step, hs, Conn.pumpEnd]

/-- A tunnel opens with nothing passed yet. -/
theorem relaying_opens {k : Client Node} (h : Stands site k) (hs : pumping k.conn.stage ≠ true)
    {e : Event} (hr : (k.step site current e).conn.stage = .relaying) :
    (k.step site current e).conn.behind = k.conn.behind ∧
      (k.step site current e).conn.toFace = [] := by
  by_cases he : e = .connected
  · subst he
    change ((site.server current).step k.conn .connected).stage = .relaying at hr
    change ((site.server current).step k.conn .connected).behind = _ ∧
      ((site.server current).step k.conn .connected).toFace = _
    cases hstage : k.conn.stage with
    | connecting node host port reply =>
        simp only [Stands, hstage] at h
        have hwrite : ∀ b, (k.conn.write b).stage = k.conn.stage ∧
            (k.conn.write b).behind = k.conn.behind ∧
            (k.conn.write b).toFace = k.conn.toFace := by
          intro b
          rw [Conn.write]
          split <;> exact ⟨rfl, rfl, rfl⟩
        rw [ProxyServer.step, hstage] at hr ⊢
        cases reply with
        | socks5 rest =>
            obtain ⟨hst, hb, hf⟩ := hwrite (socks5Reply 0x00)
            have hun : (k.conn.write (socks5Reply 0x00)).unshift rest =
                k.conn.write (socks5Reply 0x00) := by rw [Conn.unshift, hst, hstage]
            refine ⟨?_, ?_⟩
            · exact (congrArg Conn.behind hun).trans hb
            · exact (congrArg Conn.toFace hun).trans (hf.trans h.1.toFace)
        | connect =>
            obtain ⟨-, hb, hf⟩ := hwrite established
            exact ⟨hb, hf.trans h.1.toFace⟩
        | absolute outbound => cases hr
    | relaying => exact absurd (by rw [hstage]; rfl) hs
    | _ =>
        rw [ProxyServer.step, hstage] at hr
        rw [hstage] at hr
        cases hr
  · have hp : pumping (k.step site current e).conn.stage = true := by rw [hr]; rfl
    exact absurd (pumping_before h he hp).1 hs

/-- A connection that answers a request in absolute form opens no tunnel. -/
theorem answering_stays {k : Client Node} (hs : k.conn.stage = .answering) (e : Event) :
    (k.step site current e).conn.stage = .answering := by
  change ((site.server current).step k.conn e).stage = _
  cases e with
  | data chunk =>
      rw [ProxyServer.step, data, hs]
      exact hs
  | upstream chunk =>
      simp only [ProxyServer.step, hs, Conn.pump]
      split
      · exact hs
      · rfl
  | _ => simp [ProxyServer.step, hs, Conn.pumpEnd]

/-! ## The head of an absolute request -/

/-- The head that a client has sent, in one chunk or several, is rewritten to this. -/
def Rewritten (site : Site) (sent : List Bytes) (head : Bytes) : Prop :=
  ∃ read, read <+: sent ∧ ∃ stop, Bytes.indexOf headEnd read.flatten = some stop ∧
    ∃ method target url,
      requestLine (split (Bytes.latin1 (read.flatten.take stop)) crlf) = (method, some target) ∧
      site.parseUrl target = some url ∧
      head = outbound method url (split (Bytes.latin1 (read.flatten.take stop)) crlf)

theorem Rewritten.more {sent : List Bytes} {head : Bytes} (h : Rewritten site sent head)
    (chunks : List Bytes) : Rewritten site (sent ++ chunks) head := by
  obtain ⟨read, hread, hhead⟩ := h
  exact ⟨read, hread.trans (List.prefix_append sent chunks), hhead⟩

/-- What passes to the face of an absolute request is its rewritten head. -/
structure Asks (site : Site) (k : Client Node) : Prop where
  dialling : ∀ {node host port head}, k.conn.stage = .connecting node host port (.absolute head) →
    Rewritten site k.sent head
  answered : k.conn.stage = .answering → Rewritten site k.sent k.conn.toFace

theorem rewritten_handleHead {c : Conn Node} {sent : List Bytes} {stop : Nat}
    (hstop : Bytes.indexOf headEnd sent.flatten = some stop) {node : Option Node} {host : Text}
    {port : Number} {head : Bytes}
    (h : ((site.server current).handleHead c (Bytes.latin1 (sent.flatten.take stop))).stage =
      .connecting node host port (.absolute head)) : Rewritten site sent head := by
  simp only [handleHead] at h
  split at h
  · split at h
    · unfold handleConnect at h
      split at h
      · cases h
      · dsimp only at h
        split at h
        · cases h
        · cases h
    · cases h
  · split at h
    · next target ht =>
        split at h
        · unfold handleAbsolute at h
          split at h
          · cases h
          · next url hu =>
              dsimp only at h
              split at h
              · cases h
              · injection h with hnode hhost hport hreply
                injection hreply with hhead
                exact ⟨sent, List.prefix_rfl, stop, hstop, _, target, url,
                  Prod.ext rfl ht, hu, hhead.symm⟩
        · cases h
    · cases h

theorem rewritten_readHttpHead {c : Conn Node} {sent : List Bytes} {node : Option Node}
    {host : Text} {port : Number} {head : Bytes}
    (h : ((site.server current).readHttpHead c sent.flatten).stage =
      .connecting node host port (.absolute head)) : Rewritten site sent head := by
  unfold readHttpHead at h
  split at h
  · cases h
  · next stop hstop => exact rewritten_handleHead hstop h

theorem answering_toFace {k : Client Node} (hs : k.conn.stage = .answering) (e : Event) :
    (k.step site current e).conn.toFace = k.conn.toFace := by
  change ((site.server current).step k.conn e).toFace = _
  cases e with
  | data chunk =>
      rw [ProxyServer.step, data, hs]
      rfl
  | upstream chunk =>
      simp only [ProxyServer.step, hs, Conn.pump]
      split <;> rfl
  | _ => simp [ProxyServer.step, hs, Conn.pumpEnd]

/-- A target is dialled on a chunk of the client, which names it. -/
theorem dialling_before {k : Client Node} {e : Event} {node : Option Node} {host : Text}
    {port : Number} {reply : Reply}
    (h : (k.step site current e).conn.stage = .connecting node host port reply) :
    k.conn.stage = .connecting node host port reply ∨ ∃ chunk, e = .data chunk := by
  change ((site.server current).step k.conn e).stage = _ at h
  cases e with
  | data chunk => exact .inr ⟨chunk, rfl⟩
  | connected =>
      rw [ProxyServer.step] at h
      split at h
      · next answer hs =>
          cases answer with
          | socks5 rest => cases h
          | connect => cases h
          | absolute head => cases h
      · exact .inl h
  | connectFailed =>
      rw [ProxyServer.step] at h
      split at h
      · next answer hs =>
          cases answer with
          | socks5 rest => cases h
          | connect => cases h
          | absolute head => cases h
      · exact .inl h
  | upstream chunk =>
      simp only [ProxyServer.step, Conn.pump] at h
      split at h
      · next hs =>
          split at h
          · exact .inl h
          · rw [hs] at h
            cases h
      · next hs =>
          split at h
          · exact .inl h
          · rw [hs] at h
            cases h
      · exact .inl h
  | clientError =>
      simp only [ProxyServer.step] at h
      split at h
      · cases h
      · cases h
      · next hs =>
          rw [hs] at h
          cases h
      · exact .inl h
  | _ =>
      refine .inl ?_
      simp only [ProxyServer.step] at h
      split at h <;> exact h

/-- A chunk that names the target of an absolute request ends its head. -/
theorem rewritten_data {k : Client Node} (hk : Stands site k) (h : Asks site k) {chunk : Bytes}
    {node : Option Node} {host : Text} {port : Number} {head : Bytes}
    (hs : (k.step site current (.data chunk)).conn.stage =
      .connecting node host port (.absolute head)) :
    Rewritten site (k.sent ++ [chunk]) head := by
  change ((site.server current).data k.conn chunk).stage = _ at hs
  rw [data] at hs
  cases hstage : k.conn.stage with
  | first =>
      simp only [Stands, hstage] at hk
      rw [hstage] at hs
      simp only [handle] at hs
      split at hs
      · rw [handleSocks5] at hs
        split at hs <;> cases hs
      · rw [hk.2.2.2.2]
        have hread := List.flatten_singleton (l := chunk)
        rw [← hread] at hs
        exact rewritten_readHttpHead hs
  | head buffer =>
      simp only [Stands, hstage] at hk
      rw [hstage] at hs
      have hread : (k.sent ++ [chunk]).flatten = buffer ++ chunk := by
        rw [List.flatten_append, List.flatten_singleton, hk.2.2.2.2.2]
      dsimp only at hs
      rw [← hread] at hs
      exact rewritten_readHttpHead hs
  | request =>
      rw [hstage] at hs
      simp only [handleSocks5Request] at hs
      split at hs
      · cases hs
      · split at hs
        · cases hs
        · split at hs
          · cases hs
          · cases hs
  | connecting node' host' port' reply =>
      rw [hstage] at hs
      exact (h.dialling hs).more [chunk]
  | relaying =>
      rw [hstage] at hs
      change k.conn.stage = _ at hs
      rw [hstage] at hs
      cases hs
  | answering =>
      rw [hstage] at hs
      change k.conn.stage = _ at hs
      rw [hstage] at hs
      cases hs
  | done =>
      rw [hstage] at hs
      change k.conn.stage = _ at hs
      rw [hstage] at hs
      cases hs

theorem Asks.step {k : Client Node} (hk : Stands site k) (h : Asks site k) (e : Event) :
    Asks site (k.step site current e) := by
  refine ⟨fun hs => ?_, fun hs => ?_⟩
  · rcases dialling_before hs with hwas | ⟨chunk, rfl⟩
    · exact (h.dialling hwas).more _
    · exact rewritten_data hk h hs
  · by_cases he : e = .connected
    · subst he
      change ((site.server current).step k.conn .connected).stage = _ at hs
      change Rewritten site (k.sent ++ []) ((site.server current).step k.conn .connected).toFace
      cases hstage : k.conn.stage with
      | connecting node host port reply =>
          simp only [Stands, hstage] at hk
          rw [ProxyServer.step, hstage] at hs ⊢
          cases reply with
          | socks5 rest => cases hs
          | connect => cases hs
          | absolute head =>
              change Rewritten site _ (k.conn.toFace ++ head)
              rw [hk.1.toFace, List.nil_append]
              exact (h.dialling hstage).more _
      | answering =>
          rw [ProxyServer.step, hstage]
          exact (h.answered hstage).more _
      | _ =>
          rw [ProxyServer.step, hstage] at hs
          rw [hstage] at hs
          cases hs
    · have hp : pumping (k.step site current e).conn.stage = true := by rw [hs]; rfl
      cases hstage : k.conn.stage with
      | answering =>
          rw [answering_toFace hstage e]
          exact (h.answered hstage).more _
      | relaying =>
          rw [(relaying_adds hstage e).1] at hs
          cases hs
      | _ =>
          have hwas := (pumping_before hk he hp).1
          rw [hstage] at hwas
          cases hwas

/-! ## When the face is closed -/

theorem write_faceClosed (c : Conn Node) (b : Bytes) : (c.write b).faceClosed = c.faceClosed := by
  rw [Conn.write]
  split <;> rfl

theorem faceClosed_handleHead (c : Conn Node) (head : Text) :
    ((site.server current).handleHead c head).faceClosed = c.faceClosed := by
  have hend : ∀ (c : Conn Node) b, (c.end b).faceClosed = c.faceClosed := write_faceClosed
  simp only [handleHead]
  split
  · split
    · unfold handleConnect
      split
      · exact hend _ _
      · dsimp only
        split
        · exact hend _ _
        · rfl
    · rfl
  · split
    · split
      · unfold handleAbsolute
        split
        · exact hend _ _
        · dsimp only
          split
          · exact hend _ _
          · rfl
      · exact hend _ _
    · exact hend _ _

theorem faceClosed_readHttpHead (c : Conn Node) (buffer : Bytes) :
    ((site.server current).readHttpHead c buffer).faceClosed = c.faceClosed := by
  unfold readHttpHead
  split
  · rfl
  · refine (faceClosed_handleHead _ _).trans ?_
    change (Conn.unshift _ _).faceClosed = _
    unfold Conn.unshift
    split <;> rfl

/-- Only the listeners of `relay` close the face. -/
theorem faceClosed_same {c : Conn Node} (hs : c.stage ≠ .relaying) (e : Event) :
    ((site.server current).step c e).faceClosed = c.faceClosed := by
  have hend : ∀ (c : Conn Node) b, (c.end b).faceClosed = c.faceClosed := write_faceClosed
  cases e with
  | data chunk =>
      rw [ProxyServer.step, data]
      split
      · unfold handle handleSocks5
        split
        · split
          · exact write_faceClosed c _
          · exact (hend _ _).trans (write_faceClosed c _)
        · exact faceClosed_readHttpHead c chunk
      · unfold handleSocks5Request
        split
        · rfl
        · dsimp only
          split
          · exact hend _ _
          · split
            · exact hend _ _
            · rfl
      · exact faceClosed_readHttpHead c _
      · next hr => exact absurd hr hs
      · rfl
  | connected =>
      simp only [ProxyServer.step]
      split
      · next reply hc =>
          cases reply with
          | socks5 rest =>
              change (Conn.unshift _ _).faceClosed = _
              unfold Conn.unshift
              split
              · exact write_faceClosed c _
              · exact write_faceClosed c _
          | connect => exact write_faceClosed c _
          | absolute outbound => rfl
      · rfl
  | connectFailed =>
      simp only [ProxyServer.step]
      split
      · next reply hc => cases reply <;> exact hend _ _
      · rfl
  | upstream chunk =>
      simp only [ProxyServer.step, Conn.pump]
      split
      · split <;> rfl
      · split <;> rfl
      · rfl
  | clientClose => simp only [ProxyServer.step]
  | clientEnd => simp only [ProxyServer.step]
  | clientError =>
      simp only [ProxyServer.step]
      split
      · rfl
      · rfl
      · next hr => exact absurd hr hs
      · rfl
  | upstreamEnd =>
      simp only [ProxyServer.step]
      split <;> rfl
  | upstreamError =>
      simp only [ProxyServer.step]
      split <;> rfl

/-- Then it stays closed. -/
theorem faceClosed_kept {k : Client Node} (hs : k.conn.stage = .relaying)
    (h : k.conn.faceClosed = true) (e : Event) :
    (k.step site current e).conn.faceClosed = true := by
  change ((site.server current).step k.conn e).faceClosed = true
  cases e with
  | data chunk =>
      rw [ProxyServer.step, data, hs]
      exact h
  | upstream chunk =>
      simp only [ProxyServer.step, hs, Conn.pump]
      split <;> exact h
  | _ => simp [ProxyServer.step, hs, Conn.pumpEnd, h]

/-! ## The two ways of the face -/

theorem sendAll_writing (p : Pipe (VmessSession.upCodec crypto cmdKey))
    {w : Vmess.VmessChunkWriter} (hw : p.sender = some w) (ps : List Bytes) :
    ∃ w' : Vmess.VmessChunkWriter, (p.sendAll (ps.map .chunk)).sender = some w' := by
  induction ps generalizing p w with
  | nil => exact ⟨w, hw⟩
  | cons part rest ih =>
      cases hpart : VmessSession.sendPart crypto w part with
      | none =>
          have he : (VmessSession.upCodec crypto cmdKey).encode p.sender (.chunk part) = none := by
            rw [hw]
            change (VmessSession.sendPart crypto w part).map _ = none
            rw [hpart]
            rfl
          have hsame : p.send (.chunk part) = p := by rw [Pipe.send, he]
          exact ih (p.send (.chunk part)) (hsame.symm ▸ hw)
      | some r =>
          obtain ⟨b, w'⟩ := r
          have he : (VmessSession.upCodec crypto cmdKey).encode p.sender (.chunk part) =
              some (b, some w') := by
            rw [hw]
            change (VmessSession.sendPart crypto w part).map _ = _
            rw [hpart]
            rfl
          exact ih (p.send (.chunk part)) (w := w') (by rw [Pipe.send, he])

/-- A write leaves an open face open, and what has been read alone. -/
theorem write_open {t : Tunnel crypto cmdKey keys} (h : t.closed = false) (data : Bytes) :
    (t.step (.write data)).written = t.written ++ [data] ∧
      (t.step (.write data)).down = t.down ∧ (t.step (.write data)).closed = false := by
  obtain ⟨w, hw⟩ : ∃ w : Vmess.VmessChunkWriter, t.up.sender = some w :=
    Option.isSome_iff_exists.mp (Option.isNone_eq_false_iff.mp h)
  obtain ⟨w', hw'⟩ := sendAll_writing t.up hw (parts data)
  have hopen : ¬ t.closed = true := by rw [h]; decide
  have hstep : t.step (.write data) = { t with
      up := t.up.sendAll ((parts data).map .chunk), written := t.written ++ [data] } := by
    rw [Tunnel.step, if_neg hopen]
  rw [hstep]
  refine ⟨rfl, rfl, ?_⟩
  change Option.isNone (t.up.sendAll ((parts data).map .chunk)).sender = false
  rw [hw']
  rfl

theorem close_closed (t : Tunnel crypto cmdKey keys) : (t.step .close).closed = true := by
  change Option.isNone (t.up.send .finish).sender = true
  cases hw : (t.up.sender : Option Vmess.VmessChunkWriter) with
  | none =>
      have he : (VmessSession.upCodec crypto cmdKey).encode t.up.sender .finish = none := by
        rw [hw]
        rfl
      have hsame : t.up.send .finish = t.up := by rw [Pipe.send, he]
      rw [hsame, hw]
      rfl
  | some w =>
      have he : (VmessSession.upCodec crypto cmdKey).encode t.up.sender .finish =
          some (({ w with sink := [] } : Vmess.VmessChunkWriter).end.sink, none) := by
        rw [hw]
        rfl
      rw [Pipe.send, he]
      rfl

/-! ## What each turn keeps -/

/-- What the chunks of a body hold. -/
def payload (messages : List Message) : Bytes := messages.flatMap fun
  | .chunk part => part
  | _ => []

def answerBytes (chunks : List (Option Bytes)) : Bytes := (chunks.filterMap id).flatten

/-- Both sides are in order, and the session carries what passes between them. -/
structure Joined (site : Site) (target : Target) (command : Command)
    (p : Path Node crypto cmdKey keys) : Prop where
  client : Stands site p.client
  asks : Asks site p.client
  going : Going p.tunnel command
  taken : Taken p.tunnel command
  up : p.tunnel.written.flatten = p.client.conn.toFace
  closed : p.tunnel.closed = p.client.conn.faceClosed
  ended : p.client.conn.faceClosed = true → p.client.conn.stage = .relaying
  relays : p.client.conn.stage = .relaying →
    p.client.conn.behind = p.missed ++ p.client.conn.toFace
  down : p.client.offered = answerBytes p.tunnel.down.received
  asked : pumping p.client.conn.stage = true →
    p.client.conn.extracted = some (target.host, target.port)

variable {target : Target} {command : Command} {p : Path Node crypto cmdKey keys}

/-- The face is closed in a tunnel, and stays closed. -/
theorem Joined.ended_step (h : Joined site target command p) (e : Event) :
    ((p.client.step site current e).conn.faceClosed = true →
        (p.client.step site current e).conn.stage = .relaying) ∧
      (p.client.conn.faceClosed = true →
        (p.client.step site current e).conn.faceClosed = true) := by
  by_cases hs : p.client.conn.stage = .relaying
  · exact ⟨fun _ => (relaying_adds hs e).1, fun hc => faceClosed_kept hs hc e⟩
  · have hsame : (p.client.step site current e).conn.faceClosed = p.client.conn.faceClosed :=
      faceClosed_same hs e
    rw [hsame]
    exact ⟨fun hc => absurd (h.ended hc) hs, id⟩

/-- What the tunnel has missed, and what it has passed on. -/
theorem Joined.relays_step (h : Joined site target command p) (e : Event)
    (hr : (p.client.step site current e).conn.stage = .relaying) :
    (p.client.step site current e).conn.behind =
      (if pumping p.client.conn.stage then p.missed else p.client.conn.behind) ++
        (p.client.step site current e).conn.toFace := by
  by_cases hp : pumping p.client.conn.stage = true
  · rw [if_pos hp]
    cases hs : p.client.conn.stage with
    | relaying =>
        obtain ⟨-, b, hbehind, hface, -⟩ := @relaying_adds _ site current _ hs e
        rw [hbehind, hface, h.relays hs, List.append_assoc]
    | answering =>
        rw [answering_stays hs e] at hr
        cases hr
    | _ =>
        rw [hs] at hp
        cases hp
  · obtain ⟨hbehind, hface⟩ := relaying_opens h.client hp hr
    rw [if_neg hp, hbehind, hface, List.append_nil]

/-- A closed face is passed nothing but data. -/
theorem Joined.toFace_closed (h : Joined site target command p)
    (hc : p.client.conn.faceClosed = true) {e : Event} (he : ∀ chunk, e ≠ .data chunk) :
    (p.client.step site current e).conn.toFace = p.client.conn.toFace := by
  obtain ⟨-, b, -, hface, hnone⟩ := @relaying_adds _ site current _ (h.ended hc) e
  rw [hface, hnone he, List.append_nil]

theorem Joined.offer (h : Joined site target command p) (hkeys : keys.Of command)
    {client : Client Node} (hfront : p.client.conn.toFace <+: client.conn.toFace)
    (hopen : p.client.conn.faceClosed = true → client.conn.toFace = p.client.conn.toFace) :
    Going (p.offer client) command ∧ Taken (p.offer client) command ∧
      (p.offer client).written.flatten = client.conn.toFace ∧
      (p.offer client).down = p.tunnel.down ∧
      (p.offer client).closed = p.client.conn.faceClosed := by
  obtain ⟨data, hdata⟩ := hfront
  have hdrop : client.conn.toFace.drop p.client.conn.toFace.length = data := by
    rw [← hdata, List.drop_left]
  unfold Path.offer
  rw [hdrop]
  cases data with
  | nil =>
      rw [List.append_nil] at hdata
      exact ⟨h.going, h.taken, h.up.trans hdata, rfl, h.closed⟩
  | cons b rest =>
      have hstill : p.client.conn.faceClosed = false := by
        rw [← Bool.not_eq_true]
        intro hc
        rw [hopen hc] at hdata
        exact absurd (List.append_right_eq_self.mp hdata) (List.cons_ne_nil b rest)
      obtain ⟨hwritten, hdown, hclosed⟩ := write_open (h.closed.trans hstill) (b :: rest)
      refine ⟨h.going.step hkeys (.write (b :: rest)), h.taken.step (.write (b :: rest)), ?_, hdown,
        hclosed.trans hstill.symm⟩
      change (p.tunnel.step (.write (b :: rest))).written.flatten = _
      rw [hwritten, List.flatten_append, List.flatten_singleton, h.up]
      exact hdata

theorem Joined.passed (h : Joined site target command p) (hkeys : keys.Of command) {e : Event}
    (hopen : p.client.conn.faceClosed = true → ∀ chunk, e ≠ .data chunk)
    (hoffered : (p.client.step site current e).offered = p.client.offered)
    (hasked : pumping (p.client.step site current e).conn.stage = true →
      (p.client.step site current e).conn.extracted = some (target.host, target.port)) :
    Joined site target command (p.passed (p.client.step site current e)) := by
  have hends : ((p.client.step site current e).conn.faceClosed = true →
        (p.client.step site current e).conn.stage = .relaying) ∧
      (p.client.conn.faceClosed = true →
        (p.client.step site current e).conn.faceClosed = true) := h.ended_step e
  obtain ⟨hended, hkept⟩ := hends
  obtain ⟨hgoing, htaken, hup, hdown, hclosed⟩ := h.offer hkeys (toFace_front h.client e)
    fun hc => h.toFace_closed hc (hopen hc)
  have hreceived : (p.client.step site current e).offered =
      answerBytes (p.offer (p.client.step site current e)).down.received := by
    rw [hoffered, hdown]
    exact h.down
  unfold Path.passed
  by_cases hnow : ((p.client.step site current e).conn.faceClosed &&
      !p.client.conn.faceClosed) = true
  · rw [if_pos hnow]
    rw [Bool.and_eq_true] at hnow
    exact ⟨Routing.stands_step h.client e, h.asks.step h.client e, hgoing.step hkeys .close,
      htaken.step .close, hup, (close_closed _).trans hnow.1.symm, hended, h.relays_step e,
      hreceived, hasked⟩
  · rw [if_neg hnow]
    refine ⟨Routing.stands_step h.client e, h.asks.step h.client e, hgoing, htaken, hup, ?_, hended,
      h.relays_step e, hreceived, hasked⟩
    rw [hclosed]
    cases hwas : p.client.conn.faceClosed with
    | true => exact (hkept hwas).symm
    | false => simpa [hwas] using hnow

/-- A read of the face gets at most one chunk. -/
theorem read_one {t : Tunnel crypto cmdKey keys} (h : Going t command) :
    (t.step .read).down.received = t.down.received ∨
      ∃ chunk, (t.step .read).down.received = t.down.received ++ [chunk] := by
  obtain ⟨pending, hdown⟩ := h.down
  change t.down.receive.received = _ ∨ ∃ chunk, t.down.receive.received = _
  cases pending with
  | nil => exact .inl (congrArg Pipe.received hdown.receive_waits)
  | cons chunk pending => exact .inr ⟨chunk, hdown.receive_next.1⟩

/-- What the face yields is not passed back to it. -/
theorem toFace_pumped {k : Client Node} (hs : pumping k.conn.stage = true) {e : Event}
    (he : (∃ chunk, e = .upstream chunk) ∨ e = .upstreamEnd) :
    (k.step site current e).conn.toFace = k.conn.toFace := by
  change ((site.server current).step k.conn e).toFace = _
  have hpump : ∀ chunk, (k.conn.pump chunk).toFace = k.conn.toFace := by
    intro chunk
    rw [Conn.pump]
    split <;> rfl
  cases hstage : k.conn.stage with
  | relaying =>
      rcases he with ⟨chunk, rfl⟩ | rfl
      · simp only [ProxyServer.step, hstage, hpump]
      · simp only [ProxyServer.step, hstage, Conn.pumpEnd]
  | answering =>
      rcases he with ⟨chunk, rfl⟩ | rfl
      · simp only [ProxyServer.step, hstage, hpump]
      · simp only [ProxyServer.step, hstage, Conn.pumpEnd]
  | _ =>
      rw [hstage] at hs
      cases hs

theorem Joined.pump (h : Joined site target command p) (hkeys : keys.Of command)
    (hs : pumping p.client.conn.stage = true) :
    Joined site target command (p.yielded site current (p.tunnel.step .read)) := by
  have hgoing := h.going.step hkeys .read
  have htaken := h.taken.step .read
  have hnext : ∀ e, ((∃ chunk, e = .upstream chunk) ∨ e = .upstreamEnd) →
      (p.client.step site current e).offered = answerBytes (p.tunnel.step .read).down.received →
      Joined site target command
        ⟨p.client.step site current e, p.tunnel.step .read, p.missed⟩ := by
    intro e he hoffered
    have hface := @toFace_pumped _ site current _ hs e he
    have hclosed : (p.client.step site current e).conn.faceClosed = p.client.conn.faceClosed := by
      change ((site.server current).step p.client.conn e).faceClosed = _
      rcases he with ⟨chunk, rfl⟩ | rfl
      · simp only [ProxyServer.step, Conn.pump]
        split
        · split <;> rfl
        · split <;> rfl
        · rfl
      · simp only [ProxyServer.step]
        split <;> rfl
    have hmissed : (p.client.step site current e).conn.stage = .relaying →
        (p.client.step site current e).conn.behind =
          p.missed ++ (p.client.step site current e).conn.toFace := by
      intro hr
      have hbehind := h.relays_step e hr
      rwa [if_pos hs] at hbehind
    refine ⟨Routing.stands_step h.client e, h.asks.step h.client e, hgoing, htaken,
      h.up.trans hface.symm,
      h.closed.trans hclosed.symm, (h.ended_step e).1, hmissed, hoffered, fun hp => ?_⟩
    have hne : e ≠ .connected := by
      rcases he with ⟨chunk, rfl⟩ | rfl
      · exact fun hc => by cases hc
      · exact fun hc => by cases hc
    obtain ⟨hwas, hsame⟩ := pumping_before h.client hne hp
    exact hsame.trans (h.asked hwas)
  unfold Path.yielded
  rcases read_one h.going with hsame | ⟨chunk, hone⟩
  · rw [hsame, List.drop_length]
    refine ⟨h.client, h.asks, hgoing, htaken, h.up, h.closed, h.ended, h.relays, ?_, h.asked⟩
    rw [hsame]
    exact h.down
  · rw [hone, List.drop_left]
    cases chunk with
    | some chunk =>
        refine hnext _ (.inl ⟨chunk, rfl⟩) ?_
        rw [offered_upstream hs, hone, h.down, answerBytes, answerBytes, List.filterMap_append,
          List.flatten_append]
        exact congrArg _ (List.append_nil chunk).symm
    | none =>
        refine hnext _ (.inr rfl) ?_
        rw [offered_same (fun chunk hc => by cases hc), hone, h.down, answerBytes, answerBytes,
          List.filterMap_append, List.flatten_append]
        exact (List.append_nil _).symm

theorem Joined.event (h : Joined site target command p) (hkeys : keys.Of command) {e : Event}
    (he : ∀ chunk, e ≠ .upstream chunk)
    (hopen : p.client.conn.faceClosed = true → ∀ chunk, e ≠ .data chunk)
    (hasked : e = .connected → p.client.conn.extracted = some (target.host, target.port)) :
    Joined site target command (p.passed (p.client.step site current e)) := by
  refine h.passed hkeys hopen (offered_same he) fun hp => ?_
  by_cases hc : e = .connected
  · subst hc
    exact (connected_extracted h.client).trans (hasked rfl)
  · obtain ⟨hwas, hsame⟩ := pumping_before h.client hc hp
    exact hsame.trans (h.asked hwas)

/-- A turn of the server leaves what the client wrote and what it has read alone. -/
theorem Joined.server (h : Joined site target command p) {t : Tunnel crypto cmdKey keys}
    (hgoing : Going t command) (htaken : Taken t command)
    (hwritten : t.written = p.tunnel.written) (hclosed : t.closed = p.tunnel.closed)
    (hreceived : t.down.received = p.tunnel.down.received) :
    Joined site target command { p with tunnel := t } where
  client := h.client
  asks := h.asks
  going := hgoing
  taken := htaken
  up := by
    rw [hwritten]
    exact h.up
  closed := hclosed.trans h.closed
  ended := h.ended
  relays := h.relays
  down := by
    rw [hreceived]
    exact h.down
  asked := h.asked

theorem serve_client (t : Tunnel crypto cmdKey keys) :
    (t.step .serve).written = t.written ∧ (t.step .serve).closed = t.closed ∧
      (t.step .serve).down.received = t.down.received := by
  have hsender := t.up.receive_sender.1
  have hclosed : Tunnel.closed ({ t with up := t.up.receive } : Tunnel crypto cmdKey keys) =
      t.closed := congrArg (fun w : Option Vmess.VmessChunkWriter => w.isNone) hsender
  simp only [Tunnel.step]
  unfold Tunnel.begin
  split <;> exact ⟨rfl, hclosed, rfl⟩

theorem answer_client (t : Tunnel crypto cmdKey keys) (data : Bytes) :
    (t.step (.answer data)).written = t.written ∧ (t.step (.answer data)).closed = t.closed ∧
      (t.step (.answer data)).down.received = t.down.received := by
  simp only [Tunnel.step]
  split
  · exact ⟨rfl, rfl, t.down.sendAll_received _⟩
  · exact ⟨rfl, rfl, rfl⟩

theorem Joined.step (h : Joined site target command p) (hkeys : keys.Of command) (turn : Turn) :
    Joined site target command (p.step site current target turn) := by
  cases turn with
  | event e =>
      cases e with
      | upstream chunk => exact h
      | data chunk =>
          rw [Path.step]
          split
          · exact h
          · next hopen =>
              exact h.event hkeys (fun _ hc => by cases hc) (fun hc => absurd hc hopen)
                fun hc => by cases hc
      | connected =>
          rw [Path.step]
          split
          · next hx =>
              exact h.event hkeys (fun _ hc => by cases hc) (fun _ _ hc => by cases hc) fun _ => hx
          · exact h
      | _ =>
          exact h.event hkeys (fun _ hc => by cases hc) (fun _ _ hc => by cases hc)
            fun hc => by cases hc
  | pump =>
      rw [Path.step]
      split
      · next hs => exact h.pump hkeys hs
      · exact h
  | server turn =>
      cases turn with
      | write data => exact h
      | read => exact h
      | close => exact h
      | serve =>
          obtain ⟨hwritten, hclosed, hreceived⟩ := serve_client p.tunnel
          exact h.server (h.going.step hkeys .serve) (h.taken.step .serve) hwritten hclosed
            hreceived
      | answer data =>
          obtain ⟨hwritten, hclosed, hreceived⟩ := answer_client p.tunnel data
          exact h.server (h.going.step hkeys (.answer data)) (h.taken.step (.answer data)) hwritten
            hclosed hreceived
      | finish =>
          exact h.server (h.going.step hkeys .finish) (h.taken.step .finish) rfl rfl
            (p.tunnel.down.send_receiver none).2.1

/-! ## Every run -/

end

end DshClashProxy.Core.EndToEnd
