import DshClashProxy.Core.Shadowsocks
import DshClashProxy.Core.Vless

/-!
# The port of a CONNECT

`handleConnect` takes whatever `Number` makes of the text behind the last colon, and the address
encoders keep sixteen bits of it. A text that is not the decimal form of a port still becomes
one, and only a direct connection checks it.
-/
namespace DshClashProxy.Core.ConnectPort

open Js Js.Text ProxyServer EncodeAddr Vless

/-! ## Dialling -/

/-- The fields of a node that decide whether it is dialled. The port is what `net.connect` makes
of it, NaN where the node has none. -/
structure Upstream where
  type : Text
  port : Number
  ss : Shadowsocks.Node := {}
  vless : Vless.Node := {}

inductive Transport where
  | tcp
  | http
  | socks5
  | ss
  | trojan
  | vless
  | vmess
  | native
  deriving DecidableEq

/-- The branch of `connectThrough`; none where it throws before it opens anything. -/
def dispatch (cases : CaseMap) (hasNativeConnector : Bool) : Option Upstream → Option Transport
  | none => some .tcp
  | some node =>
      let native := if hasNativeConnector then some Transport.native else none
      let type := cases.toLower node.type
      if node.type = "direct".toList || node.type = "Direct".toList then some .tcp
      else if type = "http".toList then some .http
      else if type = "socks5".toList || type = "socks".toList then some .socks5
      else if type = "ss".toList then
        match node.ss.supported with
        | .ok _ => some .ss
        | .error _ => none
      else if type = "trojan".toList then some .trojan
      else if type = "vless".toList then
        let vision := cases.toLower (node.vless.flow.getD []) = "xtls-rprx-vision".toList
        if vision && node.vless.realityOpts then native
        else if vision || node.vless.realityOpts then none
        else match uuidBytes node.vless.uuid with
          | .ok _ => some .vless
          | .error _ => none
      else if type = "vmess".toList then some .vmess
      else if type = "hysteria2".toList || type = "hy2".toList then native
      else none

/-- The check `net.connect` makes before it opens a socket. -/
def validatePort (port : Number) : Bool :=
  match port.toInt? with
  | some n => decide (0 ≤ n ∧ n ≤ 65535)
  | none => false

/-- The port of the socket that the transport opens first; the native connector is a process. -/
def Transport.dialled (t : Transport) (node : Option Upstream) (port : Number) : Option Number :=
  match t with
  | .tcp => some port
  | .native => none
  | _ => node.map Upstream.port

/-- The transport that `connectThrough` opens; none where it throws before it opens anything. -/
def connectThrough (cases : CaseMap) (hasNativeConnector : Bool) (node : Option Upstream)
    (port : Number) : Option Transport :=
  (dispatch cases hasNativeConnector node).filter fun t =>
    ((t.dialled node port).map validatePort).getD true

/-- The address header that the transport puts together, unless its encoder throws. -/
def Transport.header (t : Transport) (host : Text) (port : Number) : Option Bytes :=
  match t with
  | .socks5 => some (encodeAddr host port)
  | .ss => some (encodeAddr host port)
  | .trojan => some (encodeAddr host port)
  | .vless => (vmessEncodeAddr host port).toOption
  | .vmess => (vmessEncodeAddr host port).toOption
  | _ => none

/-- Where the header of the transport has its port. -/
def Transport.headerPort (t : Transport) (header : Bytes) : Option Nat :=
  match t with
  | .vless => Bytes.readUInt16BE header 0
  | .vmess => Bytes.readUInt16BE header 0
  | _ => Bytes.readUInt16BE header (header.length - 2)

/-! ## What a port should be -/

/-- The decimal digits of a port. -/
def SpellsPort (text : Text) (port : Nat) : Prop :=
  text ≠ [] ∧ (∀ c ∈ text, Number.isDigit 10 c = true) ∧ Number.ofDigits 10 text = port ∧
    1 ≤ port ∧ port ≤ 65535

/-- What stands behind the last colon. -/
def portText (target : Text) : Text := sliceAfter target (lastIndexOf target ':')

/-- The connection of a CONNECT, and what it opens to where every socket connects. -/
def connected (cases : CaseMap) (hasNativeConnector : Bool) (server : ProxyServer Upstream)
    (target : Text) : Conn Upstream × Option (Transport × Text × Number) :=
  let c := server.handleConnect {} target
  match c.stage with
  | .connecting node host port _ =>
      match connectThrough cases hasNativeConnector node port with
      | some t => (c, some (t, host, port))
      | none => (server.step c .connectFailed, none)
  | _ => (c, none)

/-- The client is answered with an error and nothing is opened, or the target ends in the
decimal form of a port and the header carries that port. -/
def NoAlias (cases : CaseMap) (hasNativeConnector : Bool) (server : ProxyServer Upstream)
    (target : Text) : Prop :=
  match connected cases hasNativeConnector server target with
  | (c, none) => c.ended = true ∧ (c.toClient = badRequest ∨ c.toClient = badGateway)
  | (_, some (t, host, port)) => ∃ n, SpellsPort (portText target) n ∧
      ∀ header, t.header host port = some header → t.headerPort header = some n

/-! ## Targets -/

theorem exists_of_lastIndexOf {c : Char} {s : Text} {i : Nat} (h : lastIndexOf s c = some i) :
    ∃ a b, s = a ++ c :: b ∧ c ∉ b ∧ i = a.length := by
  obtain ⟨j, hj, -⟩ := Option.map_eq_some_iff.mp h
  obtain ⟨hs, hc⟩ := split_at_indexOf hj
  have hrev := congrArg List.reverse hs
  rw [List.reverse_reverse, List.reverse_append, List.reverse_cons, List.append_assoc,
    List.singleton_append] at hrev
  have hb : c ∉ (s.reverse.take j).reverse := fun hm => hc (List.mem_reverse.mp hm)
  refine ⟨_, _, hrev, hb, ?_⟩
  rw [hrev, lastIndexOf_append hb] at h
  exact (Option.some.inj h).symm

theorem connectTarget_append {host text : Text} (hne : host ≠ []) (hc : ':' ∉ text) :
    connectTarget (host ++ ':' :: text) = some (host, Number.ofText text) := by
  have hlen : host.length ≠ 0 := fun h => hne (List.length_eq_zero_iff.mp h)
  rw [connectTarget, lastIndexOf_append hc, Option.bind_some, if_neg hlen, List.take_left,
    List.drop_length_add_append]
  rfl

theorem connectTarget_inv {target host : Text} {port : Number}
    (h : connectTarget target = some (host, port)) :
    ∃ text, host ≠ [] ∧ ':' ∉ text ∧ target = host ++ ':' :: text := by
  obtain ⟨colon, hcolon, h⟩ := Option.bind_eq_some_iff.mp h
  obtain ⟨front, text, rfl, hc, rfl⟩ := exists_of_lastIndexOf hcolon
  by_cases h0 : front.length = 0
  · rw [if_pos h0] at h
    cases h
  · rw [if_neg h0, List.take_left] at h
    cases h
    exact ⟨text, fun he => h0 (congrArg List.length he), hc, rfl⟩

theorem portText_append {host text : Text} (hc : ':' ∉ text) :
    portText (host ++ ':' :: text) = text := by
  rw [portText, lastIndexOf_append hc, sliceAfter, List.drop_length_add_append]
  rfl

/-! ## Ports -/

/-- The decimal form of a port is read as the port, however many zeros it starts with. -/
theorem ofText_of_spellsPort {text : Text} {port : Nat} (h : SpellsPort text port) :
    Number.ofText text = .finite port := by
  obtain ⟨hne, hdigits, hvalue, -, hle⟩ := h
  have hlt : port < 2 ^ 53 := lt_of_le_of_lt hle (by decide)
  rw [Number.ofText_digits hne hdigits, hvalue, Number.round_natCast hlt]

theorem readUInt16BE_end (front : Bytes) {n : Nat} (h : n < 65536) :
    Bytes.readUInt16BE (front ++ Bytes.uint16BE n)
      ((front ++ Bytes.uint16BE n).length - 2) = some n := by
  have := Bytes.readUInt16BE_append front [] h
  rw [List.append_nil] at this
  rw [List.length_append]
  exact this

theorem encodeAddr_ends (host : Text) (port : Number) :
    ∃ front, encodeAddr host port = front ++ twoBytes port := by
  unfold encodeAddr
  split
  · exact ⟨_, rfl⟩
  · split
    · exact ⟨_, rfl⟩
    · exact ⟨_, rfl⟩

theorem vmessEncodeAddr_starts {host : Text} {port : Number} {header : Bytes}
    (h : vmessEncodeAddr host port = .ok header) : ∃ rest, header = twoBytes port ++ rest := by
  unfold vmessEncodeAddr at h
  split at h
  · cases h
    exact ⟨_, rfl⟩
  · split at h
    · cases hw : writeGroups (List.replicate 16 0) 0 ((host.splitOn ':').map Number.parseHex) with
      | error e =>
          rw [hw] at h
          cases h
      | ok addr =>
          rw [hw] at h
          cases h
          exact ⟨_, rfl⟩
    · cases h
      exact ⟨_, rfl⟩

/-- Whichever encoder a transport uses, its header carries a port of sixteen bits. -/
theorem headerPort_header {t : Transport} {host : Text} {n : Nat} (hn : n < 65536)
    {header : Bytes} (h : t.header host (.finite n) = some header) :
    t.headerPort header = some n := by
  have hbytes := twoBytes_natCast hn
  have hend : ∀ header, encodeAddr host (.finite n) = header →
      Bytes.readUInt16BE header (header.length - 2) = some n := by
    intro header he
    obtain ⟨front, hf⟩ := encodeAddr_ends host (.finite n)
    rw [← he, hf, hbytes]
    exact readUInt16BE_end front hn
  have hstart : ∀ header, (vmessEncodeAddr host (.finite n)).toOption = some header →
      Bytes.readUInt16BE header 0 = some n := by
    intro header he
    cases hv : vmessEncodeAddr host (.finite n) with
    | error e =>
        rw [hv] at he
        cases he
    | ok bytes =>
        rw [hv] at he
        cases he
        obtain ⟨rest, hr⟩ := vmessEncodeAddr_starts hv
        rw [hr, hbytes]
        exact Bytes.readUInt16BE_append [] rest hn
  cases t with
  | tcp => cases h
  | http => cases h
  | native => cases h
  | socks5 => exact hend header (Option.some.inj h)
  | ss => exact hend header (Option.some.inj h)
  | trojan => exact hend header (Option.some.inj h)
  | vless => exact hstart header h
  | vmess => exact hstart header h

/-! ## The condition -/

section
variable (cases : CaseMap) (hasNativeConnector : Bool) (server : ProxyServer Upstream)

/-- The target names a host that the rules pass on and a transport that opens its socket. -/
def Dials (target text : Text) : Prop :=
  ∃ (host : Text) (node : Option Upstream) (t : Transport), host ≠ [] ∧
    target = host ++ ':' :: text ∧ server.connect host = some node ∧
    dispatch cases hasNativeConnector node = some t ∧
    ∀ port, t.dialled node (Number.ofText text) = some port → validatePort port = true

variable {cases hasNativeConnector server}

theorem connectThrough_eq_some {node : Option Upstream} {port : Number} {t : Transport} :
    connectThrough cases hasNativeConnector node port = some t ↔
      dispatch cases hasNativeConnector node = some t ∧
        ∀ p, t.dialled node port = some p → validatePort p = true := by
  rw [connectThrough, Option.filter_eq_some_iff]
  refine and_congr_right fun _ => ?_
  cases t.dialled node port <;> simp

/-- A target that is not dialled is answered with an error. -/
theorem connected_none {target : Text}
    (h : ∀ text, ':' ∉ text → ¬ Dials cases hasNativeConnector server target text) :
    ∃ c, connected cases hasNativeConnector server target = (c, none) ∧
      c.ended = true ∧ (c.toClient = badRequest ∨ c.toClient = badGateway) := by
  cases ht : connectTarget target with
  | none =>
      refine ⟨Conn.end {} badRequest, ?_, rfl, .inl rfl⟩
      simp only [connected, handleConnect, ht]
      rfl
  | some r =>
      obtain ⟨host, port⟩ := r
      cases hn : server.connect host with
      | none =>
          refine ⟨(Conn.extract {} host port).end badGateway, ?_, rfl, .inr rfl⟩
          simp only [connected, handleConnect, ht, hn]
          rfl
      | some node =>
          have hthrough : connectThrough cases hasNativeConnector node port = none := by
            cases hd : connectThrough cases hasNativeConnector node port with
            | none => rfl
            | some t =>
                obtain ⟨text, hne, hc, rfl⟩ := connectTarget_inv ht
                rw [connectTarget_append hne hc] at ht
                cases ht
                obtain ⟨hdispatch, hport⟩ := connectThrough_eq_some.mp hd
                exact absurd ⟨host, node, t, hne, rfl, hn, hdispatch, hport⟩ (h text hc)
          refine ⟨(Conn.extract {} host port).end badGateway, ?_, rfl, .inr rfl⟩
          simp only [connected, handleConnect, ht, hn, Conn.setStage, hthrough, step]
          rfl

/-- A target that is dialled is connected to, at the port that `Number` makes of its text. -/
theorem connected_some {target text : Text} (hc : ':' ∉ text)
    (h : Dials cases hasNativeConnector server target text) :
    portText target = text ∧ ∃ c t host, connected cases hasNativeConnector server target =
      (c, some (t, host, Number.ofText text)) := by
  obtain ⟨host, node, t, hne, rfl, hn, hdispatch, hport⟩ := h
  have hthrough := connectThrough_eq_some.mpr ⟨hdispatch, hport⟩
  refine ⟨portText_append hc, server.handleConnect {} (host ++ ':' :: text), t, host, ?_⟩
  simp only [connected, handleConnect, connectTarget_append hne hc, hn, Conn.setStage, hthrough]

/-- A CONNECT keeps its port exactly when the text behind its last colon, if it comes to dialling
at all, is the decimal form of a port. -/
theorem noAlias_iff (cases : CaseMap) (hasNativeConnector : Bool) (server : ProxyServer Upstream)
    (target : Text) :
    NoAlias cases hasNativeConnector server target ↔
      ∀ text, ':' ∉ text → Dials cases hasNativeConnector server target text →
        ∃ n, SpellsPort text n := by
  constructor
  · intro h text hc hd
    obtain ⟨htext, c, t, host, hopen⟩ := connected_some hc hd
    rw [NoAlias, hopen] at h
    obtain ⟨n, hn, -⟩ := h
    rw [htext] at hn
    exact ⟨n, hn⟩
  · intro h
    by_cases hd : ∀ text, ':' ∉ text → ¬ Dials cases hasNativeConnector server target text
    · obtain ⟨c, hrefused, hanswer⟩ := connected_none hd
      rw [NoAlias, hrefused]
      exact hanswer
    · push Not at hd
      obtain ⟨text, hc, hd⟩ := hd
      obtain ⟨htext, c, t, host, hopen⟩ := connected_some hc hd
      obtain ⟨n, hn⟩ := h text hc hd
      have hlt : n < 65536 := Nat.lt_succ_of_le hn.2.2.2.2
      rw [NoAlias, hopen, ofText_of_spellsPort hn, htext]
      exact ⟨n, hn, fun header hh => headerPort_header hlt hh⟩

end

/-- A server that sends every target through one SOCKS5 node. -/
def socks5Server : ProxyServer Upstream :=
  ⟨fun _ => .proxy, some ⟨"socks5".toList, 1080, {}, {}⟩, fun _ => none⟩

/-- Port 65616 is asked for, and the node is asked for port 80. -/
theorem port_aliased :
    ¬ ∀ (cases : CaseMap) (hasNativeConnector : Bool) (server : ProxyServer Upstream)
      (target : Text), NoAlias cases hasNativeConnector server target := by
  intro h
  have hdials : Dials .ascii false socks5Server "a:65616".toList "65616".toList :=
    ⟨"a".toList, some ⟨"socks5".toList, 1080, {}, {}⟩, .socks5, by decide, rfl, rfl, by decide, by
      intro port hp
      cases hp
      decide⟩
  obtain ⟨n, hn⟩ := (noAlias_iff .ascii false socks5Server "a:65616".toList).mp
    (h _ _ _ _) "65616".toList (by decide) hdials
  have hvalue : Number.ofDigits 10 "65616".toList = 65616 := by decide
  have := hn.2.2.1
  have := hn.2.2.2.2
  omega

example : encodeAddr "a".toList (Number.ofText "65616".toList) =
    encodeAddr "a".toList (Number.ofText "0x50".toList) := by decide +kernel

end DshClashProxy.Core.ConnectPort
