import DshClashProxy.Core.Relay

/-!
# Which SOCKS5 requests open a connection

`readSocks5Request` looks at the address type and at what follows it. The version and the
command in front of it are never read, so a request with any other command is served as a
CONNECT.
-/
namespace DshClashProxy.Core.Socks5Request

open Js ProxyServer

/-- A complete request of one of the three address types, whatever its other fields hold. -/
structure Message where
  version : UInt8
  command : UInt8
  reserved : UInt8
  address : Client.Address
  port : Nat
  port_lt : port < 65536

def Message.encode (m : Message) : Bytes :=
  [m.version, m.command, m.reserved] ++ m.address.encode ++ Bytes.uint16BE m.port

/-- The text stands for exactly this address; a name for the bytes of the text. -/
def Names (host : Text) : Client.Address → Prop
  | .ip4 octets _ => host = ['.'].intercalate (octets.map fun b => decimal b.toNat)
  | .name text _ => Bytes.utf8Encode host = text
  | .ip6 octets _ => host = [':'].intercalate (Client.groupTexts octets)

variable {Node : Type}

/-- The connection that is being opened: its node, host and port. -/
def attempt (c : Conn Node) : Option (Option Node × Text × Number) :=
  match c.stage with
  | .connecting node host port _ => some (node, host, port)
  | _ => none

/-- Exactly a CONNECT request opens a connection, and to the target it encodes. The server
serves a target that the rules do not reject, over a node it has if they send it to one. -/
def OpensExactly (server : ProxyServer Node) (c : Conn Node) (chunk : Bytes) : Prop :=
  ∀ node host port, attempt (server.step c (.data chunk)) = some (node, host, port) ↔
    ∃ (m : Message) (rest : Bytes), chunk = m.encode ++ rest ∧
      m.version = 0x05 ∧ m.command = 0x01 ∧
      Names host m.address ∧ port = .finite m.port ∧ server.connect host = some node

/-! ## The messages that are read -/

theorem read_message (m : Message) (rest : Bytes) :
    readSocks5Request (m.encode ++ rest) = some (m.address.host, m.port, rest) := by
  obtain ⟨version, command, reserved, address, port, hp⟩ := m
  cases address with
  | ip4 octets h => exact Client.read_ip4 h hp rest
  | name text h => exact Client.read_name h hp rest
  | ip6 octets h => exact Client.read_ip6 h hp rest

/-- A port that can be read behind an address is the end of a message. -/
theorem exists_fixed {atyp : UInt8} {count : Nat} {tail : Bytes} {port : Nat}
    (address : ∀ octets : Bytes, octets.length = count → Client.Address)
    (henc : ∀ octets h, (address octets h).encode = atyp :: octets)
    (h : Bytes.readUInt16BE tail count = some port) (version command reserved : UInt8) :
    ∃ (m : Message) (rest : Bytes),
      version :: command :: reserved :: atyp :: tail = m.encode ++ rest := by
  obtain ⟨hp, octets, rest, rfl, hl⟩ := Bytes.readUInt16BE_inv h
  refine ⟨⟨version, command, reserved, address octets hl, port, hp⟩, rest, ?_⟩
  rw [Message.encode, henc]
  simp

theorem exists_name {length : UInt8} {tail : Bytes} {port : Nat}
    (h : Bytes.readUInt16BE tail length.toNat = some port) (version command reserved : UInt8) :
    ∃ (m : Message) (rest : Bytes),
      version :: command :: reserved :: 0x03 :: length :: tail = m.encode ++ rest := by
  obtain ⟨hp, text, rest, rfl, hl⟩ := Bytes.readUInt16BE_inv h
  have hle : text.length ≤ 255 := by
    have := length.toNat_lt
    omega
  refine ⟨⟨version, command, reserved, .name text hle, port, hp⟩, rest, ?_⟩
  rw [Message.encode, Client.Address.encode, hl, UInt8.ofNat_toNat]
  simp

/-- What is read is a message with something behind it. -/
theorem exists_message {header : Bytes} {r : Text × Nat × Bytes}
    (h : readSocks5Request header = some r) :
    ∃ (m : Message) (rest : Bytes), header = m.encode ++ rest := by
  match header with
  | [] => cases h
  | [_] => cases h
  | [_, _] => cases h
  | [_, _, _] => cases h
  | version :: command :: reserved :: atyp :: tail =>
      unfold readSocks5Request at h
      split at h
      next h3 =>
        cases h3
        obtain ⟨port, hport, -⟩ := Option.bind_eq_some_iff.mp h
        exact exists_fixed .ip4 (fun _ _ => rfl) hport version command reserved
      next h3 =>
        cases h3
        obtain ⟨port, hport, -⟩ := Option.bind_eq_some_iff.mp h
        exact exists_fixed .ip6 (fun _ _ => rfl) hport version command reserved
      next h3 =>
        cases h3
        obtain ⟨length, h4, h⟩ := Option.bind_eq_some_iff.mp h
        obtain ⟨port, hport, -⟩ := Option.bind_eq_some_iff.mp h
        cases tail with
        | nil => cases h4
        | cons c tail =>
            cases h4
            rw [Nat.add_comm] at hport
            exact exists_name hport version command reserved
      next => cases h

/-- An address ends where its own bytes say. -/
theorem address_inj {a a' : Client.Address} {rest rest' : Bytes}
    (h : a.encode ++ rest = a'.encode ++ rest') : a = a' := by
  cases a with
  | ip4 octets hl =>
      cases a' with
      | ip4 octets' hl' =>
          obtain rfl := List.append_inj_left (List.cons.inj h).2 (hl.trans hl'.symm)
          rfl
      | name => cases (List.cons.inj h).1
      | ip6 => cases (List.cons.inj h).1
  | name text hl =>
      cases a' with
      | ip4 => cases (List.cons.inj h).1
      | name text' hl' =>
          obtain ⟨hlen, htail⟩ := List.cons.inj (List.cons.inj h).2
          have hlen := congrArg UInt8.toNat hlen
          rw [Client.toNat_lengthByte hl, Client.toNat_lengthByte hl'] at hlen
          obtain rfl := List.append_inj_left htail hlen
          rfl
      | ip6 => cases (List.cons.inj h).1
  | ip6 octets hl =>
      cases a' with
      | ip4 => cases (List.cons.inj h).1
      | name => cases (List.cons.inj h).1
      | ip6 octets' hl' =>
          obtain rfl := List.append_inj_left (List.cons.inj h).2 (hl.trans hl'.symm)
          rfl

/-- The fields of a message can be read off its bytes. -/
theorem encode_append_inj {m m' : Message} {rest rest' : Bytes}
    (h : m.encode ++ rest = m'.encode ++ rest') :
    m.version = m'.version ∧ m.command = m'.command ∧ m.address = m'.address := by
  simp only [Message.encode, List.cons_append, List.nil_append, List.append_assoc,
    List.cons.injEq] at h
  exact ⟨h.1, h.2.1, address_inj h.2.2.2⟩

theorem host_of_names {host : Text} {a : Client.Address} (h : Names host a) : a.host = host := by
  cases a with
  | ip4 octets hl => exact h.symm
  | name text hl =>
      obtain rfl : Bytes.utf8Encode host = text := h
      exact Bytes.utf8Decode_utf8Encode host
  | ip6 octets hl => exact h.symm

/-! ## The connection -/

/-- A target that is read and served is connected to, and no other. -/
theorem attempt_request (server : ProxyServer Node) {c : Conn Node} (h : c.stage = .request)
    (chunk : Bytes) :
    attempt (server.step c (.data chunk)) =
      (readSocks5Request chunk).bind fun r =>
        (server.connect r.1).map fun node => (node, r.1, .finite r.2.1) := by
  have hstep : server.step c (.data chunk) = server.handleSocks5Request c chunk := by
    simp only [step, data, h]
  rw [hstep, handleSocks5Request]
  cases readSocks5Request chunk with
  | none => rfl
  | some r =>
      obtain ⟨host, port, rest⟩ := r
      simp only [Option.bind_some]
      cases hd : server.decide host with
      | reject => simp only [connect, hd, Conn.end, attempt, Option.map_none]
      | proxy =>
          simp only
          cases server.connect host <;> rfl
      | direct =>
          simp only
          cases server.connect host <;> rfl

/-- Exactly the fields that are not read decide whether a readable request to a served target
is what the server takes it for. -/
theorem opensExactly_iff (server : ProxyServer Node) {c : Conn Node} (h : c.stage = .request)
    (chunk : Bytes) :
    OpensExactly server c chunk ↔
      ∀ (m : Message) (rest : Bytes), chunk = m.encode ++ rest →
        server.connect m.address.host ≠ none →
        m.version = 0x05 ∧ m.command = 0x01 ∧ Names m.address.host m.address := by
  have hat := attempt_request server h chunk
  constructor
  · intro hopens m rest hm hserved
    obtain ⟨node, hnode⟩ := Option.ne_none_iff_exists'.mp hserved
    have hattempt : attempt (server.step c (.data chunk)) =
        some (node, m.address.host, .finite m.port) := by
      rw [hat, hm, read_message, Option.bind_some, hnode]
      rfl
    obtain ⟨m', rest', hm', hv, hc, hnames, -, -⟩ := (hopens _ _ _).mp hattempt
    obtain ⟨hv', hc', ha⟩ := encode_append_inj (hm.symm.trans hm')
    exact ⟨hv'.trans hv, hc'.trans hc, ha ▸ hnames⟩
  · intro hfields node host port
    rw [hat]
    constructor
    · intro hattempt
      obtain ⟨r, hread, hnode⟩ := Option.bind_eq_some_iff.mp hattempt
      obtain ⟨m, rest, hm⟩ := exists_message hread
      rw [hm, read_message] at hread
      cases hread
      obtain ⟨node', hconnect, he⟩ := Option.map_eq_some_iff.mp hnode
      cases he
      have hserved : server.connect m.address.host ≠ none := by
        rw [hconnect]
        exact nofun
      obtain ⟨hv, hc, hnames⟩ := hfields m rest hm hserved
      exact ⟨m, rest, hm, hv, hc, hnames, rfl, hconnect⟩
    · intro hrequest
      obtain ⟨m, rest, hm, hv, hc, hnames, hport, hconnect⟩ := hrequest
      obtain rfl := host_of_names hnames
      rw [hm, read_message, Option.bind_some, hconnect, hport]
      rfl

/-- BIND for port 80 of the loopback address. -/
def bindRequest : Bytes := [0x05, 0x02, 0x00, 0x01, 127, 0, 0, 1, 0, 80]

/-- A BIND opens the connection that a CONNECT would. -/
theorem bind_opens :
    ¬ ∀ (Node : Type) (server : ProxyServer Node) (c : Conn Node) (chunk : Bytes),
      c.stage = .request → OpensExactly server c chunk := by
  intro h
  have hopens := h Unit Relay.directServer { stage := .request } bindRequest rfl
  obtain ⟨m, rest, hm, -, hc, -⟩ := (hopens none "127.0.0.1".toList (.finite 80)).mp rfl
  have hcommand : (0x02 : UInt8) = m.command := (List.cons.inj (List.cons.inj hm).2).1
  rw [hc] at hcommand
  exact absurd hcommand (by decide)

/-- CONNECT for port 8080 of a private address. -/
def connectRequest : Message := ⟨0x05, 0x01, 0x00, .ip4 [10, 0, 0, 1] rfl, 8080, by decide⟩

theorem connect_opens :
    OpensExactly Relay.directServer { stage := .request } (connectRequest.encode ++ [0x47]) := by
  refine (opensExactly_iff Relay.directServer rfl _).mpr fun m rest hm _ => ?_
  obtain ⟨hv, hc, ha⟩ := encode_append_inj hm
  rw [← ha]
  exact ⟨hv.symm, hc.symm, rfl⟩

end DshClashProxy.Core.Socks5Request
