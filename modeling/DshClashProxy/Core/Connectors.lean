import DshClashProxy.Core.ConnectPort
import DshClashProxy.Core.Handshakes
import DshClashProxy.Core.VmessHeader
import DshClashProxy.Js.Numeral
import DshClashProxy.Lib.Resumption

/-!
# Transport functions, await by await

Behind an open socket a transport function reads, writes, and returns its face or throws. Here
each is a program that stops wherever the function awaits. Run against a stream, the HTTP,
SOCKS5 and WebSocket handshakes are the ones that consume exactly their replies.
-/
namespace DshClashProxy.Core.Connectors

open Js Js.Text ProxyServer Lib.ByteSource EncodeAddr Vless
open Lib.Resumption (Program Handler)
open Handshakes (Credentials httpRequest socks5Hello socks5Credentials isSwitching statusLine
  wsRequest)
open ConnectPort (Transport)

/-- What a transport function awaits. -/
inductive Await where
  /-- `buffer.read(count)` -/
  | read (count : Nat)
  /-- `socketWrite`, which waits until the socket has room again. -/
  | write (data : Bytes)
  /-- `socket.write` with a callback, which is also called for data that is lost. -/
  | send (data : Bytes)

abbrev Await.Answer : Await → Type
  | read _ => Bytes
  | write _ => Unit
  | send _ => Unit

abbrev Steps (ε α : Type) := Program Await.Answer ε α

/-! ## The functions -/

section
variable {ε : Type}

def read (count : Nat) : Steps ε Bytes := Program.perform (Await.read count)

def write (data : Bytes) : Steps ε Unit := Program.perform (Await.write data)

def send (data : Bytes) : Steps ε Unit := Program.perform (Await.send data)

end

/-- The loop of both header readers. `left` is how many more bytes the cap of 65536 lets in. -/
def readHead (tooLarge : Text) : Nat → Text → Steps Text Text
  | left, text => do
      let byte ← read 1
      let text := text ++ Bytes.latin1 byte
      if endsWith text "\r\n\r\n".toList then return text
      match left with
      | 0 => .fail tooLarge
      | left + 1 => readHead tooLarge left text

def readUntilCrlfCrlf : Steps Text Text := do
  let text ← readHead "header block too large".toList 65536 []
  return text.take (text.length - 4)

def httpConnect (node : Credentials) (host : Text) (port : Number) : Steps Text Unit := do
  write (httpRequest node host port.toText)
  let head ← readUntilCrlfCrlf
  let status := match ((statusLine head).splitOn ' ')[1]? with
    | some code => Number.ofText code
    | none => 0
  if status.lt 200 || Number.le 300 status then
    .fail ("http upstream CONNECT failed: ".toList ++ statusLine head)

/-- The answer to the method the server picks. -/
def socks5Auth (node : Credentials) (method : Option UInt8) : Steps Text Unit := do
  if method = some 0x02 then
    write (socks5Credentials node)
    let authReply ← read 2
    if authReply[1]? ≠ some 0x00 then .fail "socks5 upstream auth failed".toList
  else if method ≠ some 0x00 then
    .fail "socks5 upstream: no acceptable auth method".toList

/-- The rest of a connect reply behind its address type. -/
def socks5Bind (atyp : Option UInt8) : Steps Text Unit := do
  let restLength := if atyp = some 0x01 then 6 else if atyp = some 0x04 then 18 else 0
  if restLength = 0 && atyp = some 0x03 then
    let length ← read 1
    let _ ← read ((length.head?.getD 0).toNat + 2)
    return ()
  else if 0 < restLength then
    let _ ← read restLength
    return ()

def socks5Connect (node : Credentials) (host : Text) (port : Number) : Steps Text Unit := do
  write (socks5Hello node)
  let greeting ← read 2
  socks5Auth node greeting[1]?
  write ([0x05, 0x01, 0x00] ++ encodeAddr host port)
  let reply ← read 4
  if reply[1]? ≠ some 0x00 then
    .fail ("socks5 upstream connect failed: code ".toList ++ decimal ((reply[1]?).getD 0).toNat)
  socks5Bind reply[3]?

def wsHandshake (key path host : Text) (extraHeaders : List Text) : Steps Text Unit := do
  send (wsRequest key path host extraHeaders)
  let head ← readHead "ws: handshake header too large".toList 65536 []
  if !isSwitching head then .fail ("ws: upgrade rejected: ".toList ++ statusLine head)

/-- The fields of a node that its transport function reads. -/
structure Node extends ConnectPort.Upstream where
  server : Text
  username : Option Text := none
  sni : Option Text := none
  network : Option Text := none
  /-- `path` of its `ws-opts`. -/
  wsPath : Option Text := none
  /-- `Host` or `host` among the headers of its `ws-opts`. -/
  wsHost : Option Text := none

def Node.credentials (node : Node) : Credentials := ⟨node.username, node.ss.password⟩

/-- What a connection takes from its surroundings: the platform, the ciphers, and what is drawn
at random. -/
structure Surroundings where
  cases : CaseMap
  hasNativeConnector : Bool
  ss : Shadowsocks.Crypto
  vmess : VmessHeader.Crypto
  salt : (length : Nat) → Sip004.Sized length
  wsKey : Sip004.Sized 16
  reqKey : Sip004.Sized 16
  reqIV : Sip004.Sized 16
  responseHeader : UInt8
  padding : VmessHeader.Padding
  draw : VmessHeader.Draw

section
variable (s : Surroundings) (node : Node)

/-- The upgrade of a node whose network is `ws`. -/
def upgrade (hostHeader : Text) : Steps Thrown Unit :=
  if s.cases.toLower (node.network.getD "tcp".toList) = "ws".toList then
    (wsHandshake (Bytes.base64 s.wsKey.val) (node.wsPath.getD "/".toList)
      (node.wsHost.getD hostHeader) []).mapError .error
  else pure ()

def ssConnect (host : Text) (port : Number) : Steps Thrown Unit := do
  let face ← Program.ofExcept
    ((Shadowsocks.ssConnect s.ss node.ss s.salt host port).mapError .error)
  write face.socket

/-- The first request is written and not awaited. -/
def trojanConnect : Steps Thrown Unit := upgrade s node (node.sni.getD node.server)

/-- The request is put together behind the upgrade, and then written and not awaited. -/
def vlessConnect (host : Text) (port : Number) : Steps Thrown Unit := do
  upgrade s node node.server
  let _ ← Program.ofExcept (Vless.vlessConnect s.cases node.vless host port)

/-- The header is put together behind the upgrade, and then written and not awaited. -/
def vmessConnect (host : Text) (port : Number) : Steps Thrown Unit := do
  upgrade s node node.server
  let uuid ← Program.ofExcept (uuidBytes node.vless.uuid)
  let cmdKey := s.ss.md5 (uuid ++ Bytes.ofAscii "c48619fe-8f02-49e0-b9e9-edf763e17e21".toList)
  let command ← Program.ofExcept (VmessHeader.buildVmessCommand
    { reqKey := s.reqKey, reqIV := s.reqIV, responseHeader := s.responseHeader, host, port }
    s.padding)
  let _ ← Program.ofExcept (VmessHeader.sealVmessAeadHeader s.vmess cmdKey s.draw command)

/-- What the transport function does behind its open socket. -/
def behindSocket (host : Text) (port : Number) : Transport → Steps Thrown Unit
  | .tcp => pure ()
  | .native => pure ()
  | .http => (httpConnect node.credentials host port).mapError .error
  | .socks5 => (socks5Connect node.credentials host port).mapError .error
  | .ss => ssConnect s node host port
  | .trojan => trojanConnect s node
  | .vless => vlessConnect s node host port
  | .vmess => vmessConnect s node host port

end

/-! ## Against a stream -/

section
variable {source : Source UInt8} {ε α β : Type}

/-- Reads go to the stream, and what is written is kept. -/
def onStream (source : Source UInt8) (ε : Type) :
    Handler Await.Answer ε (StateT (List Bytes) (source.Reads ε)) where
  answer
    | .read count => StateT.lift (Source.next count)
    | .write data => modify (· ++ [data])
    | .send data => modify (· ++ [data])
  raise e := StateT.lift (throw e)
  raise_bind _ _ := rfl

/-- The result of a program, and all that has been written at its end. -/
def runOn (source : Source UInt8) (p : Steps ε α) (sent : List Bytes) :
    source.Reads ε (α × List Bytes) := (p.interpret (onStream source ε)).run sent

variable (sent : List Bytes)

@[simp] theorem runOn_bind (p : Steps ε α) (f : α → Steps ε β) :
    runOn source (p >>= f) sent =
      runOn source p sent >>= fun r => runOn source (f r.1) r.2 := by
  rw [runOn, Program.interpret_bind, StateT.run_bind]
  rfl

@[simp] theorem runOn_pure (a : α) :
    runOn source (pure a : Steps ε α) sent = pure (a, sent) := rfl

@[simp] theorem runOn_fail (e : ε) :
    runOn source (.fail e : Steps ε α) sent = throw e := rfl

@[simp] theorem runOn_read (count : Nat) :
    runOn source (read count : Steps ε Bytes) sent =
      Source.next count >>= fun b => pure (b, sent) := by
  rw [runOn, read, Program.interpret_perform]
  rfl

@[simp] theorem runOn_write (data : Bytes) :
    runOn source (write data : Steps ε Unit) sent = pure ((), sent ++ [data]) := by
  rw [runOn, write, Program.interpret_perform]
  rfl

@[simp] theorem runOn_send (data : Bytes) :
    runOn source (send data : Steps ε Unit) sent = pure ((), sent ++ [data]) := by
  rw [runOn, send, Program.interpret_perform]
  rfl

/-- What follows a read goes on with what the stream gives. -/
theorem run_read_bind (count : Nat) (f : Bytes → StateT (List Bytes) (source.Reads ε) α)
    (s : source.State) :
    ((onStream source ε).answer (.read count) >>= f).run sent s =
      (source.read s count).bind fun r => (f r.1).run sent r.2 := by
  have hlift : ((onStream source ε).answer (.read count) >>= f).run sent =
      Source.next count >>= fun b => (f b).run sent := by
    change (StateT.lift (Source.next count) >>= f).run sent = _
    rw [StateT.run_bind, StateT.run_lift, bind_assoc]
    simp only [pure_bind]
  rw [hlift]
  change Option.bind (Option.map _ (source.read s count)) _ = _
  cases source.read s count with
  | none => rfl
  | some r => rfl

theorem runOn_ask_read (count : Nat) (next : Bytes → Steps ε α) (s : source.State) :
    runOn source (.ask (Await.read count) next) sent s =
      (source.read s count).bind fun r => runOn source (next r.1) sent r.2 :=
  run_read_bind sent count (fun b => (next b).interpret (onStream source ε)) s

theorem runOn_mapError {ε' : Type} (f : ε → ε') (p : Steps ε α) (s : source.State) :
    runOn source (p.mapError f) sent s =
      (runOn source p sent s).map fun r => (r.1.mapError f, r.2) := by
  induction p generalizing sent s with
  | done a => rfl
  | fail e => rfl
  | ask r next ih =>
      cases r with
      | write data => exact ih () (sent ++ [data]) s
      | send data => exact ih () (sent ++ [data]) s
      | read count =>
          rw [Program.mapError, runOn_ask_read, runOn_ask_read]
          cases source.read s count with
          | none => rfl
          | some r => exact ih r.1 sent r.2

/-- The two loops go through the same bytes. -/
theorem runOn_readHead (tooLarge : Text) (left : Nat) (text : Text) :
    runOn source (readHead tooLarge left text) sent =
      Handshakes.readHead tooLarge left text >>= fun head => pure (head, sent) := by
  induction left generalizing text with
  | zero =>
      unfold readHead Handshakes.readHead
      rw [runOn_bind, runOn_read, bind_assoc, bind_assoc]
      refine bind_congr fun byte => ?_
      by_cases h : endsWith (text ++ Bytes.latin1 byte) "\r\n\r\n".toList = true
      · simp only [h, if_true, pure_bind, runOn_pure]
      · simp only [h, Bool.false_eq_true, if_false, pure_bind, runOn_fail]
        rfl
  | succ left ih =>
      unfold readHead Handshakes.readHead
      rw [runOn_bind, runOn_read, bind_assoc, bind_assoc]
      refine bind_congr fun byte => ?_
      by_cases h : endsWith (text ++ Bytes.latin1 byte) "\r\n\r\n".toList = true
      · simp only [h, if_true, pure_bind, runOn_pure]
      · simp only [h, Bool.false_eq_true, if_false, pure_bind, ih]

theorem runOn_httpConnect (node : Credentials) (host : Text) (port : Number) :
    runOn source (httpConnect node host port) [] =
      Handshakes.httpConnect node host port.toText >>= fun sent => pure ((), sent) := by
  unfold httpConnect Handshakes.httpConnect readUntilCrlfCrlf Handshakes.readUntilCrlfCrlf
  simp only [runOn_bind, runOn_write, runOn_readHead, pure_bind, bind_assoc, runOn_pure]
  refine bind_congr fun head => ?_
  cases ((statusLine (head.take (head.length - 4))).splitOn ' ')[1]? with
  | none =>
      simp only
      split
      · rfl
      · rfl
  | some code =>
      simp only
      split
      · rfl
      · rfl

theorem runOn_wsHandshake (key path host : Text) (extraHeaders : List Text) :
    runOn source (wsHandshake key path host extraHeaders) [] =
      Handshakes.wsHandshake key path host extraHeaders >>= fun sent => pure ((), sent) := by
  unfold wsHandshake Handshakes.wsHandshake
  simp only [runOn_bind, runOn_send, runOn_readHead, pure_bind, bind_assoc]
  refine bind_congr fun head => ?_
  split
  · rfl
  · rfl

theorem runOn_socks5Auth (node : Credentials) (method : Option UInt8) :
    runOn source (socks5Auth node method) sent =
      Handshakes.socks5Auth node method >>= fun auth => pure ((), sent ++ auth) := by
  unfold socks5Auth Handshakes.socks5Auth
  split
  · simp only [runOn_bind, runOn_write, runOn_read, pure_bind, bind_assoc]
    refine bind_congr fun reply => ?_
    split
    · rfl
    · rfl
  · split
    · rfl
    · simp

theorem runOn_socks5Bind (atyp : Option UInt8) :
    runOn source (socks5Bind atyp) sent =
      Handshakes.socks5Bind atyp >>= fun _ => pure ((), sent) := by
  unfold socks5Bind Handshakes.socks5Bind
  lift_lets
  intro restLength
  split_ifs
  · simp only [runOn_bind, runOn_read, pure_bind, bind_assoc, runOn_pure]
  · simp only [runOn_bind, runOn_read, pure_bind, bind_assoc, runOn_pure]
  · rfl

theorem runOn_socks5Connect (node : Credentials) (host : Text) (port : Number) :
    runOn source (socks5Connect node host port) [] =
      Handshakes.socks5Connect node host port >>= fun sent => pure ((), sent) := by
  unfold socks5Connect Handshakes.socks5Connect
  simp only [runOn_bind, runOn_write, runOn_read, runOn_socks5Auth, pure_bind, bind_assoc]
  refine bind_congr fun greeting => bind_congr fun auth => bind_congr fun reply => ?_
  split
  · rfl
  · simp only [runOn_socks5Bind, pure_bind, bind_assoc, List.nil_append, List.cons_append]

end

end DshClashProxy.Core.Connectors
