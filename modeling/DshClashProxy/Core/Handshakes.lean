import DshClashProxy.Core.EncodeAddr
import DshClashProxy.Core.Transports

/-!
# Upstream handshakes

The HTTP CONNECT, SOCKS5 and WebSocket handshakes read from the buffer that the relay goes
on with. Each consumes exactly its reply, whatever is pipelined behind it and however the
stream is cut into data events.
-/
namespace DshClashProxy.Core.Handshakes

open Js Js.Text ProxyServer Lib.ByteSource EncodeAddr Transports
open Source (next Consumes)

/-! ## The handshakes -/

section
variable {source : Source UInt8}

/-- The loop of both header readers. `left` is how many more bytes the cap of 65536 lets in. -/
def readHead (tooLarge : Text) : Nat → Text → source.Reads Text Text
  | left, text => do
      let byte ← next 1
      let text := text ++ Bytes.latin1 byte
      if endsWith text "\r\n\r\n".toList then return text
      match left with
      | 0 => throw tooLarge
      | left + 1 => readHead tooLarge left text

def readUntilCrlfCrlf : source.Reads Text Text := do
  let text ← readHead "header block too large".toList 65536 []
  return text.take (text.length - 4)

/-- The credentials of a node. -/
structure Credentials where
  username : Option Text := none
  password : Option Text := none

def Credentials.given (c : Credentials) : Bool := !(c.username.getD []).isEmpty

def statusLine (head : Text) : Text := (split head crlf).head?.getD []

/-- The request of `httpConnect`. `portText` is the printed port. -/
def httpRequest (node : Credentials) (host portText : Text) : Bytes :=
  let auth := if node.given then
      "Proxy-Authorization: Basic ".toList ++ Bytes.base64 (Bytes.utf8Encode
        (node.username.getD [] ++ ':' :: node.password.getD [])) ++ crlf
    else []
  let target := host ++ ':' :: portText
  Bytes.utf8Encode ("CONNECT ".toList ++ target ++ " HTTP/1.1\r\nHost: ".toList ++ target ++ crlf ++
    auth ++ crlf)

/-- `httpConnect`, with what it writes. -/
def httpConnect (node : Credentials) (host portText : Text) : source.Reads Text (List Bytes) := do
  let head ← readUntilCrlfCrlf
  let status := match ((statusLine head).splitOn ' ')[1]? with
    | some code => Number.ofText code
    | none => 0
  if status.lt 200 || Number.le 300 status then
    throw ("http upstream CONNECT failed: ".toList ++ statusLine head)
  return [httpRequest node host portText]

def socks5Hello (node : Credentials) : Bytes :=
  [0x05, if node.given then 2 else 1, 0x00] ++ if node.given then [0x02] else []

/-- The message with username and password. -/
def socks5Credentials (node : Credentials) : Bytes :=
  let user := Bytes.utf8Encode (node.username.getD "undefined".toList)
  let pass := Bytes.utf8Encode (node.password.getD [])
  0x01 :: UInt8.ofNat user.length :: user ++ UInt8.ofNat pass.length :: pass

/-- The answer to the method the server picks, with what it writes. -/
def socks5Auth (node : Credentials) (method : Option UInt8) : source.Reads Text (List Bytes) := do
  if method = some 0x02 then
    let authReply ← next 2
    if authReply[1]? ≠ some 0x00 then throw "socks5 upstream auth failed".toList
    return [socks5Credentials node]
  else if method ≠ some 0x00 then
    throw "socks5 upstream: no acceptable auth method".toList
  else return []

/-- The rest of a connect reply behind its address type. -/
def socks5Bind (atyp : Option UInt8) : source.Reads Text Unit := do
  let restLength := if atyp = some 0x01 then 6 else if atyp = some 0x04 then 18 else 0
  if restLength = 0 && atyp = some 0x03 then
    let length ← next 1
    let _ ← next ((length.head?.getD 0).toNat + 2)
    return ()
  else if 0 < restLength then
    let _ ← next restLength
    return ()

/-- `socks5Connect`, with what it writes. -/
def socks5Connect (node : Credentials) (host : Text) (port : Number) :
    source.Reads Text (List Bytes) := do
  let greeting ← next 2
  let auth ← socks5Auth node greeting[1]?
  let request : Bytes := [0x05, 0x01, 0x00] ++ encodeAddr host port
  let reply ← next 4
  if reply[1]? ≠ some 0x00 then
    throw ("socks5 upstream connect failed: code ".toList ++
      decimal ((reply[1]?).getD 0).toNat)
  socks5Bind reply[3]?
  return socks5Hello node :: auth ++ [request]

/-- A character of a word, as `\b` takes it. -/
def isWord (c : Char) : Bool :=
  let n := c.toNat
  (48 ≤ n && n ≤ 57) || (65 ≤ n && n ≤ 90) || (97 ≤ n && n ≤ 122) || n = 95

/-- `/^HTTP\/1\.[01] 101\b/` -/
def isSwitching (head : Text) : Bool :=
  (startsWith head "HTTP/1.0 101".toList || startsWith head "HTTP/1.1 101".toList) &&
    !(head[12]?.any isWord)

/-- The upgrade request. -/
def wsRequest (key path host : Text) (extraHeaders : List Text) : Bytes :=
  Bytes.utf8Encode (crlf.intercalate (["GET ".toList ++ path ++ " HTTP/1.1".toList,
    "Host: ".toList ++ host, "Upgrade: websocket".toList, "Connection: Upgrade".toList,
    "Sec-WebSocket-Key: ".toList ++ key, "Sec-WebSocket-Version: 13".toList] ++ extraHeaders ++
    [[], []]))

/-- `wsHandshake`, with what it writes. -/
def wsHandshake (key path host : Text) (extraHeaders : List Text) :
    source.Reads Text (List Bytes) := do
  let head ← readHead "ws: handshake header too large".toList 65536 []
  if !isSwitching head then throw ("ws: upgrade rejected: ".toList ++ statusLine head)
  return [wsRequest key path host extraHeaders]

/-! ## Replies -/

/-- A header block whose status line has this version and code. Its first blank line ends it,
and it keeps to the size cap. -/
structure HttpReply where
  head : Bytes
  version : Text
  code : Text
  rest : Text
  text_eq : Bytes.latin1 head = version ++ ' ' :: (code ++ rest)
  plain : ∀ c ∈ version ++ code, c ≠ ' ' ∧ c ≠ '\r'
  ends : rest = [] ∨ (∃ t, rest = ' ' :: t) ∨ ∃ t, rest = '\r' :: '\n' :: t
  unended : ¬ headEnd <:+: (head ++ headEnd).dropLast
  length_le : (head ++ headEnd).length ≤ 65537

def HttpReply.encode (r : HttpReply) : Bytes := r.head ++ headEnd

/-- The code is one of the 2xx. -/
def HttpReply.Established (r : HttpReply) : Prop :=
  r.code.length = 3 ∧ r.code.all (Number.isDigit 10) = true ∧
    200 ≤ Number.ofDigits 10 r.code ∧ Number.ofDigits 10 r.code < 300

def HttpReply.Switching (r : HttpReply) : Prop :=
  (r.version = "HTTP/1.0".toList ∨ r.version = "HTTP/1.1".toList) ∧ r.code = "101".toList

/-- The replies of a SOCKS5 server that connects. `auth` is the version byte of its answer to
the credentials, where it asks for them. -/
structure Socks5Reply where
  version : UInt8
  auth : Option UInt8
  reserved : UInt8
  bind : Client.Address
  port : UInt8 × UInt8

def Socks5Reply.authBytes : Option UInt8 → Bytes
  | none => []
  | some version => [version, 0x00]

def Socks5Reply.encode (r : Socks5Reply) : Bytes :=
  [r.version, if r.auth.isSome then 0x02 else 0x00] ++ (Socks5Reply.authBytes r.auth ++
    ([r.version, 0x00, r.reserved] ++ r.bind.encode ++ [r.port.1, r.port.2]))

/-! ## Header blocks -/

theorem endsWith_latin1 (b : Bytes) :
    endsWith (Bytes.latin1 b) "\r\n\r\n".toList = true ↔ headEnd <:+ b := by
  have hend : "\r\n\r\n".toList = Bytes.latin1 headEnd := rfl
  rw [endsWith, List.isSuffixOf_iff_suffix, hend]
  constructor
  · intro h
    obtain ⟨t, ht⟩ := h
    obtain ⟨b₁, b₂, rfl, -, h2⟩ := List.map_eq_append_iff.mp ht.symm
    rw [Bytes.latin1_injective h2]
    exact List.suffix_append b₁ headEnd
  · intro h
    obtain ⟨t, rfl⟩ := h
    rw [Bytes.latin1_append]
    exact List.suffix_append _ _

/-- The loop stops at the first blank line. The induction is on the bytes up to it. -/
theorem consumes_readHead (tooLarge : Text) {front : Bytes} (before : Bytes) {left : Nat}
    (hne : front ≠ []) (hend : headEnd <:+ before ++ front)
    (hu : ¬ headEnd <:+: (before ++ front).dropLast) (hl : front.length ≤ left + 1) :
    Consumes (readHead tooLarge left (Bytes.latin1 before) : source.Reads Text Text) front
      (Bytes.latin1 (before ++ front)) := by
  induction front generalizing before left with
  | nil => exact absurd rfl hne
  | cons b rest ih =>
      have hcons : before ++ b :: rest = before ++ [b] ++ rest := by simp
      rw [hcons] at hend hu ⊢
      unfold readHead
      change Consumes _ ([b] ++ rest) _
      refine Consumes.bind (Source.consumes_next [b]) ?_
      have htext : Bytes.latin1 before ++ Bytes.latin1 [b] = Bytes.latin1 (before ++ [b]) :=
        (Bytes.latin1_append before [b]).symm
      simp only [htext]
      cases rest with
      | nil =>
          rw [List.append_nil] at hend ⊢
          rw [if_pos ((endsWith_latin1 _).mpr hend)]
          exact Source.consumes_pure _
      | cons c rest =>
          have hgo : ¬ endsWith (Bytes.latin1 (before ++ [b])) "\r\n\r\n".toList = true := by
            intro he
            have hpre : before ++ [b] <+: (before ++ [b] ++ c :: rest).dropLast := by
              rw [List.dropLast_append_of_ne_nil (List.cons_ne_nil c rest)]
              exact List.prefix_append _ _
            exact hu (((endsWith_latin1 _).mp he).isInfix.trans hpre.isInfix)
          rw [if_neg hgo]
          cases left with
          | zero =>
              simp only [List.length_cons] at hl
              omega
          | succ left =>
              refine ih (before ++ [b]) (List.cons_ne_nil c rest) hend hu ?_
              simpa using hl

theorem consumes_head (tooLarge : Text) (r : HttpReply) :
    Consumes (readHead tooLarge 65536 [] : source.Reads Text Text) r.encode
      (Bytes.latin1 r.encode) := by
  have hne : r.encode ≠ [] := by
    rw [HttpReply.encode]
    exact List.append_ne_nil_of_right_ne_nil _ (List.cons_ne_nil _ _)
  exact consumes_readHead tooLarge [] hne (List.suffix_append _ _) r.unended r.length_le

theorem consumes_readUntilCrlfCrlf (r : HttpReply) :
    Consumes (readUntilCrlfCrlf : source.Reads Text Text) r.encode (Bytes.latin1 r.head) := by
  refine (consumes_head _ r).bind_nil ?_
  have hlen : (Bytes.latin1 r.encode).length - 4 = (Bytes.latin1 r.head).length := by
    rw [HttpReply.encode, Bytes.latin1_append, List.length_append]
    exact Nat.add_sub_cancel _ _
  rw [hlen, HttpReply.encode, Bytes.latin1_append, List.take_left]
  exact Source.consumes_pure _

/-- The second of at least two words. -/
theorem second_word {first second : Text} (hfirst : ' ' ∉ first) (hsecond : ' ' ∉ second)
    (t : Text) (ht : t = [] ∨ ∃ t', t = ' ' :: t') :
    ((first ++ ' ' :: second ++ t).splitOn ' ')[1]? = some second := by
  rcases ht with rfl | ⟨t', rfl⟩
  · rw [List.append_nil, List.splitOn_append_cons_self_of_not_mem hfirst,
      List.splitOn_eq_singleton hsecond]
    rfl
  · rw [List.append_assoc, List.cons_append, List.splitOn_append_cons_self_of_not_mem hfirst,
      List.splitOn_append_cons_self_of_not_mem hsecond]
    rfl

/-- The status line is cut out of the head, and its second word is the code. -/
theorem statusLine_code (r : HttpReply) :
    ((statusLine (Bytes.latin1 r.head)).splitOn ' ')[1]? = some r.code := by
  have hcr : '\r' ∉ r.version ++ ' ' :: r.code := by
    intro h
    rcases List.mem_append.mp h with h | h
    · exact (r.plain _ (List.mem_append_left _ h)).2 rfl
    · rcases List.mem_cons.mp h with h | h
      · exact absurd h (by decide)
      · exact (r.plain _ (List.mem_append_right _ h)).2 rfl
  have hversion : ' ' ∉ r.version := fun h => (r.plain _ (List.mem_append_left _ h)).1 rfl
  have hcode : ' ' ∉ r.code := fun h => (r.plain _ (List.mem_append_right _ h)).1 rfl
  have htext : Bytes.latin1 r.head = r.version ++ ' ' :: r.code ++ r.rest := by
    rw [r.text_eq, List.append_assoc]
    rfl
  have hsplit : split (Bytes.latin1 r.head) crlf =
      splitGo crlf r.rest 0 (r.version ++ ' ' :: r.code).reverse := by
    have := splitGo_append hcr ['\n'] r.rest []
    rw [List.append_nil] at this
    rw [split, htext]
    exact this
  have hwords := @second_word _ _ hversion hcode
  rw [statusLine, hsplit]
  rcases r.ends with h | ⟨t, h⟩ | ⟨t, h⟩
  · rw [h]
    have := hwords [] (Or.inl rfl)
    rw [List.append_nil] at this
    simpa [splitGo] using this
  · rw [h]
    have hp : crlf.isPrefixOf (' ' :: t) = false := rfl
    obtain ⟨t', pieces, hs⟩ := splitGo_head crlf t 0 (' ' :: (r.version ++ ' ' :: r.code).reverse)
    rw [splitGo, hp, if_neg Bool.false_ne_true, hs, List.reverse_cons, List.reverse_reverse,
      List.append_assoc]
    exact hwords (' ' :: t') (Or.inr ⟨t', rfl⟩)
  · rw [h]
    have hp : crlf.isPrefixOf ('\r' :: '\n' :: t) = true := by simp [crlf]
    have := hwords [] (Or.inl rfl)
    rw [List.append_nil] at this
    rw [splitGo, if_pos hp, List.reverse_reverse]
    exact this

theorem consumes_httpConnect (node : Credentials) (host portText : Text) {r : HttpReply}
    (h : r.Established) :
    Consumes (httpConnect node host portText : source.Reads Text (List Bytes)) r.encode
      [httpRequest node host portText] := by
  obtain ⟨h3, hd, hlow, hhigh⟩ := h
  have hne : r.code ≠ [] := fun h0 => by
    rw [h0] at h3
    cases h3
  have hstatus : Number.ofText r.code = .finite (Number.ofDigits 10 r.code) :=
    Number.ofText_of_digits hne (List.all_eq_true.mp hd) (by omega)
  have hok : ((Number.ofText r.code).lt 200 || Number.le 300 (Number.ofText r.code)) = false := by
    have h1 : ¬ Number.lt (.finite (Number.ofDigits 10 r.code)) 200 = true :=
      mt (Number.lt_natCast _ 200).mp (by omega)
    have h2 : ¬ Number.le 300 (.finite (Number.ofDigits 10 r.code)) = true :=
      mt (Number.le_natCast 300 _).mp (by omega)
    rw [hstatus, Bool.eq_false_of_not_eq_true h1, Bool.eq_false_of_not_eq_true h2]
    rfl
  refine (consumes_readUntilCrlfCrlf r).bind_nil ?_
  simp only [statusLine_code, hok]
  exact Source.consumes_pure _

theorem consumes_wsHandshake (key path host : Text) (extraHeaders : List Text) {r : HttpReply}
    (h : r.Switching) :
    Consumes (wsHandshake key path host extraHeaders : source.Reads Text (List Bytes)) r.encode
      [wsRequest key path host extraHeaders] := by
  obtain ⟨hversion, hcode⟩ := h
  have hswitch : isSwitching (Bytes.latin1 r.encode) = true := by
    have hend : Bytes.latin1 headEnd = "\r\n\r\n".toList := rfl
    obtain ⟨c, t, hct, hc⟩ : ∃ c t, r.rest ++ "\r\n\r\n".toList = c :: t ∧ isWord c = false := by
      rcases r.ends with h | ⟨t, h⟩ | ⟨t, h⟩
      · exact ⟨'\r', _, by rw [h]; rfl, by decide⟩
      · exact ⟨' ', _, by rw [h]; rfl, by decide⟩
      · exact ⟨'\r', _, by rw [h]; rfl, by decide⟩
    rw [HttpReply.encode, Bytes.latin1_append, r.text_eq, hcode, hend, List.append_assoc,
      List.cons_append, List.append_assoc, hct]
    rcases hversion with h | h <;> rw [h] <;> simp [isSwitching, startsWith, hc]
  refine (consumes_head _ r).bind_nil ?_
  rw [hswitch]
  exact Source.consumes_pure _

/-! ## SOCKS5 -/

theorem consumes_socks5Auth (node : Credentials) (auth : Option UInt8) :
    Consumes (socks5Auth node (some (if auth.isSome then 0x02 else 0x00)) :
      source.Reads Text (List Bytes)) (Socks5Reply.authBytes auth)
      (if auth.isSome then [socks5Credentials node] else []) := by
  cases auth with
  | none => exact Source.consumes_pure _
  | some version =>
      exact (Source.consumes_next [version, 0x00]).bind_nil (Source.consumes_pure _)

/-- A read of a known number of bytes whose value is not used. -/
theorem consumes_skip {front : Bytes} {count : Nat} (h : front.length = count) :
    Consumes (do let _ ← next count; return () : source.Reads Text Unit) front () := by
  subst h
  exact (Source.consumes_next front).bind_nil (Source.consumes_pure _)

theorem consumes_socks5Bind (bind : Client.Address) (port : Bytes) (hp : port.length = 2) :
    ∃ atyp rest, bind.encode = atyp :: rest ∧
      Consumes (socks5Bind (some atyp) : source.Reads Text Unit) (rest ++ port) () := by
  cases bind with
  | ip4 octets h =>
      exact ⟨0x01, octets, rfl, consumes_skip (by rw [List.length_append, h, hp]; rfl)⟩
  | ip6 octets h =>
      exact ⟨0x04, octets, rfl, consumes_skip (by rw [List.length_append, h, hp]; rfl)⟩
  | name text h =>
      refine ⟨0x03, UInt8.ofNat text.length :: text, rfl, ?_⟩
      refine (Source.consumes_next [UInt8.ofNat text.length]).bind (consumes_skip ?_)
      change (text ++ port).length = (UInt8.ofNat text.length).toNat + 2
      rw [List.length_append, hp, Client.toNat_lengthByte h]

theorem consumes_socks5Connect (node : Credentials) (host : Text) (port : Number)
    (r : Socks5Reply) :
    Consumes (socks5Connect node host port : source.Reads Text (List Bytes)) r.encode
      (socks5Hello node :: (if r.auth.isSome then [socks5Credentials node] else []) ++
        [[0x05, 0x01, 0x00] ++ encodeAddr host port]) := by
  obtain ⟨atyp, rest, hbind, hb⟩ : ∃ atyp rest, r.bind.encode = atyp :: rest ∧
      Consumes (socks5Bind (some atyp) : source.Reads Text Unit)
        (rest ++ [r.port.1, r.port.2]) () := consumes_socks5Bind r.bind _ rfl
  have hreply : [r.version, 0x00, r.reserved] ++ r.bind.encode ++ [r.port.1, r.port.2] =
      [r.version, 0x00, r.reserved, atyp] ++ (rest ++ [r.port.1, r.port.2]) := by
    rw [hbind]
    simp
  rw [Socks5Reply.encode, hreply]
  refine (Source.consumes_next [r.version, if r.auth.isSome then 0x02 else 0x00]).bind ?_
  refine (consumes_socks5Auth node r.auth).bind ?_
  refine (Source.consumes_next [r.version, 0x00, r.reserved, atyp]).bind ?_
  exact hb.bind_nil (Source.consumes_pure _)

end

/-! ## Exact replies -/

/-- A handshake with a server that accepts. -/
inductive Handshake where
  | http (node : Credentials) (host portText : Text) (reply : HttpReply)
      (established : reply.Established)
  | socks5 (node : Credentials) (host : Text) (port : Number) (reply : Socks5Reply)
  | ws (key path host : Text) (extraHeaders : List Text) (reply : HttpReply)
      (switching : reply.Switching)

/-- What the server sends. -/
def Handshake.reply : Handshake → Bytes
  | http _ _ _ reply _ => reply.encode
  | socks5 _ _ _ reply => reply.encode
  | ws _ _ _ _ reply _ => reply.encode

/-- The handshake over the buffer of its socket. -/
def Handshake.run : Handshake → OpenSocket.source.Reads Text (List Bytes)
  | http node host portText _ _ => httpConnect node host portText
  | socks5 node host port _ => socks5Connect node host port
  | ws key path host extraHeaders _ _ => wsHandshake key path host extraHeaders

theorem consumes_reply (h : Handshake) : ∃ sent, Consumes h.run h.reply sent := by
  cases h with
  | http node host portText reply established =>
      exact ⟨_, consumes_httpConnect node host portText established⟩
  | socks5 node host port reply => exact ⟨_, consumes_socks5Connect node host port reply⟩
  | ws key path host extraHeaders reply switching =>
      exact ⟨_, consumes_wsHandshake key path host extraHeaders switching⟩

/-- The handshake succeeds and leaves the tunnel bytes, however the stream is cut. -/
theorem handshake_exact (h : Handshake) (tunnel : Bytes) (schedule : List (Option Bytes))
    (hs : (schedule.filterMap id).flatten = h.reply ++ tunnel) :
    ∃ sent s', h.run { schedule } = some (.ok sent, s') ∧ Continues s' tunnel := by
  obtain ⟨sent, hc⟩ := consumes_reply h
  obtain ⟨s', hr, ht⟩ := hc { schedule } tunnel hs
  exact ⟨sent, s', hr, continues_of_content ht⟩

/-- A server that asks for credentials and binds to a name. -/
def namedBind : Socks5Reply where
  version := 0x05
  auth := some 0x01
  reserved := 0x00
  bind := .name [0x61, 0x62] (by decide)
  port := (0x00, 0x50)

/-- The last byte of the reply comes in one chunk with the first of the tunnel. -/
theorem handshake_exact_named :
    ∃ sent s', (Handshake.socks5 { username := some "u".toList } "a.b".toList 443 namedBind).run
      { schedule := [some [0x05, 0x02, 0x01], none, some [0x00, 0x05], none,
          some [0x00, 0x00, 0x03, 0x02, 0x61, 0x62, 0x00], some [0x50, 0x16, 0x03]] } =
        some (.ok sent, s') ∧ Continues s' [0x16, 0x03] :=
  handshake_exact _ [0x16, 0x03] _ (by decide)

end DshClashProxy.Core.Handshakes
