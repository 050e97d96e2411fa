import DshClashProxy.Core.Inbound

/-!
# Bytes that reach the upstream face

Until the target is connected no listener is attached, and an absolute-form request never
gets one. A tunnel forwards exactly what comes in after the connect, and an absolute-form
request forwards its head alone.
-/
namespace DshClashProxy.Core.Relay

open Js Js.Text ProxyServer Client Inbound

variable {Node : Type} {server : ProxyServer Node}

/-- A tunnel that a client asks for and the rules admit. -/
inductive Tunnel (server : ProxyServer Node) where
  | connect (head : HttpHead) (target host : Text) (port : Number) (node : Option Node)
      (line : requestLine (split head.text crlf) = ("CONNECT".toList, some target))
      (named : connectTarget target = some (host, port))
      (reached : server.connect host = some node)
  | socks5 (greeting : Greeting) (request : Request) (node : Option Node)
      (reached : server.connect request.address.host = some node)

/-- The chunks bring the opening of the tunnel and then these tunnel bytes. -/
def Tunnel.Opens : Tunnel server → List Bytes → Bytes → Prop
  | .connect head _ _ _ _ _ _ _, chunks, early =>
      (∀ c ∈ chunks, c ≠ []) ∧ chunks.flatten = head.encode ++ early
  | .socks5 greeting request _ _, chunks, early =>
      ∃ first later, chunks = greeting.encode :: (request.encode ++ first) :: later ∧
        first ++ later.flatten = early

/-- The chunks that arrive before the connect completes, and the tunnel bytes among them. -/
structure Opening (t : Tunnel server) where
  chunks : List Bytes
  early : Bytes
  opens : t.Opens chunks early

/-- A connection through which a tunnel is being connected. -/
structure Awaiting (c : Conn Node) : Prop where
  connecting : ∃ node host port reply, c.stage = .connecting node host port reply ∧
    ∀ outbound, reply ≠ .absolute outbound
  silent : c.toFace = []

theorem handleHead_connect {head : HttpHead} {target host : Text} {port : Number}
    {node : Option Node} (hl : requestLine (split head.text crlf) = ("CONNECT".toList, some target))
    (hn : connectTarget target = some (host, port)) (hr : server.connect host = some node) :
    server.handleHead {} head.text =
      (Conn.extract {} host port).setStage (.connecting node host port .connect) := by
  simp only [handleHead, hl, if_true, handleConnect, hn, hr]

theorem handleSocks5_greeting (server : ProxyServer Node) (g : Greeting) :
    server.data {} g.encode = (Conn.write {} [0x05, 0x00]).setStage .request := by
  have hh : g.encode.head? = some 0x05 := rfl
  change server.handle {} g.encode = _
  rw [handle, if_pos hh, handleSocks5, greetingMethods_encode, if_pos g.offers]

theorem handleSocks5Request_reached {c : Conn Node} {r : Request} {node : Option Node}
    (hr : server.connect r.address.host = some node) (rest : Bytes) :
    server.handleSocks5Request c (r.encode ++ rest) =
      ((c.extract r.address.host (.finite r.port)).setBehind rest).setStage
        (.connecting node r.address.host (.finite r.port) (.socks5 rest)) := by
  rw [handleSocks5Request, readSocks5Request_encode]
  simp only [hr]
  cases hd : server.decide r.address.host with
  | reject => simp [connect, hd] at hr
  | proxy => rfl
  | direct => rfl

theorem awaiting_of_opens {t : Tunnel server} {chunks : List Bytes} {early : Bytes}
    (h : t.Opens chunks early) : Awaiting (server.run (chunks.map .data)) := by
  cases t with
  | connect head target host port node line named reached =>
      rw [run_head head h.1 h.2, handleHead_connect line named reached]
      exact ⟨⟨node, host, port, .connect, rfl, by simp⟩, rfl⟩
  | socks5 greeting request node reached =>
      obtain ⟨first, later, rfl, _⟩ := h
      change Awaiting (server.runFrom (server.data (server.data {} greeting.encode)
        (request.encode ++ first)) (later.map .data))
      rw [handleSocks5_greeting]
      change Awaiting (server.runFrom (server.handleSocks5Request
        ((Conn.write {} [0x05, 0x00]).setStage .request) (request.encode ++ first))
        (later.map .data))
      rw [handleSocks5Request_reached reached, runFrom_deaf]
      · exact ⟨⟨node, _, _, .socks5 first, rfl, by simp⟩, rfl⟩
      · trivial

theorem write_toFace (c : Conn Node) (b : Bytes) : (c.write b).toFace = c.toFace := by
  unfold Conn.write
  split <;> rfl

theorem write_stage (c : Conn Node) (b : Bytes) : (c.write b).stage = c.stage := by
  unfold Conn.write
  split <;> rfl

/-- The connect attaches the listener of the relay and forwards nothing itself. -/
theorem connected_relays (server : ProxyServer Node) {c : Conn Node} (h : Awaiting c) :
    (server.step c .connected).stage = .relaying ∧ (server.step c .connected).toFace = [] := by
  obtain ⟨⟨node, host, port, reply, hs, hr⟩, hf⟩ := h
  simp only [step, hs]
  cases reply with
  | absolute outbound => exact absurd rfl (hr outbound)
  | connect => exact ⟨rfl, (write_toFace c established).trans hf⟩
  | socks5 rest =>
      refine ⟨rfl, ?_⟩
      have hu : (c.write (socks5Reply 0x00)).unshift rest = c.write (socks5Reply 0x00) := by
        unfold Conn.unshift
        rw [write_stage, hs]
      change ((c.write (socks5Reply 0x00)).unshift rest).toFace = []
      rw [hu, write_toFace, hf]

theorem runFrom_relaying {c : Conn Node} (h : c.stage = .relaying) (chunks : List Bytes) :
    (server.runFrom c (chunks.map .data)).toFace = c.toFace ++ chunks.flatten := by
  induction chunks generalizing c with
  | nil =>
      rw [List.flatten_nil, List.append_nil]
      rfl
  | cons chunk rest ih =>
      have hd : server.data c chunk = (c.relayed chunk).setBehind (c.behind ++ chunk) := by
        rw [data, h]
      change (server.runFrom (server.data c chunk) (rest.map .data)).toFace = _
      rw [hd, ih (c := (c.relayed chunk).setBehind (c.behind ++ chunk)) h, List.flatten_cons,
        ← List.append_assoc]
      rfl

theorem tunnel_toFace {t : Tunnel server} (o : Opening t) (late : List Bytes) :
    (server.run (o.chunks.map .data ++ .connected :: late.map .data)).toFace = late.flatten := by
  obtain ⟨hs, hf⟩ := connected_relays server (awaiting_of_opens o.opens)
  rw [run, runFrom_append]
  change (server.runFrom (server.step (server.run (o.chunks.map .data)) .connected)
    (late.map .data)).toFace = _
  rw [runFrom_relaying hs, hf, List.nil_append]

/-- A tunnel is forwarded whole exactly when none of it comes in before the connect. -/
theorem tunnel_intact_iff {t : Tunnel server} (o : Opening t) (late : List Bytes) :
    (server.run (o.chunks.map .data ++ .connected :: late.map .data)).toFace =
      o.early ++ late.flatten ↔ o.early = [] := by
  rw [tunnel_toFace]
  exact ⟨fun h => List.append_left_eq_self.mp h.symm, fun h => by rw [h, List.nil_append]⟩

/-- A server that reaches every target directly. -/
def directServer : ProxyServer Unit where
  decide _ := .direct
  resolveNode := none
  parseUrl _ := some ⟨"a".toList, [], "/".toList, []⟩

def connectHead : HttpHead where
  bytes := Bytes.ofAscii "CONNECT a:443 HTTP/1.1".toList
  head?_ne := by decide
  unended := by decide

def connectTunnel : Tunnel directServer :=
  .connect connectHead "a:443".toList "a".toList 443 none (by decide) (by decide +kernel) rfl

/-- A first TLS byte that comes in while the target is being connected is lost. -/
theorem early_hello_lost :
    ¬ ∀ (t : Tunnel directServer) (o : Opening t) (late : List Bytes),
      (directServer.run (o.chunks.map .data ++ .connected :: late.map .data)).toFace =
        o.early ++ late.flatten := by
  intro h
  have := (tunnel_intact_iff _ _).mp
    (h connectTunnel ⟨[connectHead.encode, [0x16]], [0x16], by decide, rfl⟩ [])
  cases this

/-! ## Absolute-form requests -/

/-- An absolute-form request whose target the rules admit. -/
structure AbsoluteRequest (server : ProxyServer Node) where
  head : HttpHead
  method : Text
  target : Text
  url : Url
  node : Option Node
  line : requestLine (split head.text crlf) = (method, some target)
  method_ne : method ≠ "CONNECT".toList
  absolute : (startsWith target "http://".toList || startsWith target "https://".toList) = true
  parsed : server.parseUrl target = some url
  reached : server.connect url.hostname = some node

/-- The rewritten head of the request. -/
def AbsoluteRequest.rewritten (r : AbsoluteRequest server) : Bytes :=
  outbound r.method r.url (split r.head.text crlf)

/-- The chunks that arrive before the connect completes, and the body bytes among them. -/
structure Sending (r : AbsoluteRequest server) where
  chunks : List Bytes
  early : Bytes
  nonempty : ∀ c ∈ chunks, c ≠ []
  sends : chunks.flatten = r.head.encode ++ early

theorem handleHead_absolute (r : AbsoluteRequest server) :
    server.handleHead {} r.head.text =
      (Conn.extract {} r.url.hostname (urlPort r.url)).setStage
        (.connecting r.node r.url.hostname (urlPort r.url) (.absolute r.rewritten)) := by
  simp only [handleHead, r.line, if_neg r.method_ne, if_pos r.absolute, handleAbsolute, r.parsed,
    r.reached, AbsoluteRequest.rewritten]

theorem absolute_toFace {r : AbsoluteRequest server} (o : Sending r) (late : List Bytes) :
    (server.run (o.chunks.map .data ++ .connected :: late.map .data)).toFace = r.rewritten := by
  rw [run, runFrom_append]
  change (server.runFrom (server.step (server.run (o.chunks.map .data)) .connected)
    (late.map .data)).toFace = _
  rw [run_head r.head o.nonempty o.sends, handleHead_absolute]
  change (server.runFrom (Conn.opened _ (.absolute r.rewritten)) (late.map .data)).toFace = _
  rw [runFrom_deaf]
  · rfl
  · trivial

/-- An absolute-form request is forwarded whole exactly when it has no body. -/
theorem body_forwarded_iff {r : AbsoluteRequest server} (o : Sending r) (late : List Bytes) :
    (server.run (o.chunks.map .data ++ .connected :: late.map .data)).toFace =
      r.rewritten ++ (o.early ++ late.flatten) ↔ o.early ++ late.flatten = [] := by
  rw [absolute_toFace]
  exact ⟨fun h => List.append_right_eq_self.mp h.symm, fun h => by rw [h, List.append_nil]⟩

def postHead : HttpHead where
  bytes := Bytes.ofAscii "POST http://a/ HTTP/1.1".toList
  head?_ne := by decide
  unended := by decide

def postRequest : AbsoluteRequest directServer where
  head := postHead
  method := "POST".toList
  target := "http://a/".toList
  url := ⟨"a".toList, [], "/".toList, []⟩
  node := none
  line := by decide
  method_ne := by decide
  absolute := by decide
  parsed := rfl
  reached := rfl

/-- A body byte that follows the head in its chunk is lost, and so is one that comes later. -/
theorem post_body_lost :
    ¬ ∀ (r : AbsoluteRequest directServer) (o : Sending r) (late : List Bytes),
      (directServer.run (o.chunks.map .data ++ .connected :: late.map .data)).toFace =
        r.rewritten ++ (o.early ++ late.flatten) := by
  intro h
  have := (body_forwarded_iff _ _).mp
    (h postRequest ⟨[postHead.encode ++ [0x31]], [0x31], by decide, by decide⟩ [[0x32]])
  cases this

end DshClashProxy.Core.Relay
