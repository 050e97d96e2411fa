import DshClashProxy.Js.Buffer
import DshClashProxy.Core.Rules

/-!
# The loopback proxy server

One inbound connection of the server, from the first byte to the relay. A connection is
advanced by the events of its two sockets. Between two events it has at most one `data`
listener; a chunk that is emitted or unshifted while it has none is discarded.
-/
namespace DshClashProxy.Core

open Js Js.Text Rules

/-- The parts of a parsed URL that the server reads. -/
structure Url where
  hostname : Text
  port : Text
  pathname : Text
  search : Text
  deriving DecidableEq

/-- What a server is built with, and the URL parser it calls. `decide` is the decision of
the rule engine. -/
structure ProxyServer (Node : Type) where
  decide : Text → Action
  resolveNode : Option Node
  parseUrl : Text → Option Url

namespace ProxyServer
variable {Node : Type}

/-- What a connection does once its target is reached or refused. -/
inductive Reply where
  | socks5 (rest : Bytes)
  | connect
  | absolute (outbound : Bytes)
  deriving DecidableEq

inductive Stage (Node : Type) where
  /-- The listener of `handle` waits for the first chunk. -/
  | first
  /-- The listener of `readSocks5Request` waits for one chunk. -/
  | request
  /-- The listener of `readHttpHead` waits for more of the head. -/
  | head (buffer : Bytes)
  /-- No listener: the target is being connected. -/
  | connecting (node : Option Node) (host : Text) (port : Number) (reply : Reply)
  /-- The listener of `relay` writes to the face. -/
  | relaying
  /-- No listener: only the answer is piped. -/
  | answering
  /-- No listener: the connection was answered and left, or destroyed. -/
  | done

/-- One connection. The last two fields are history: the target that was extracted, and
what came in behind the message that named it. -/
structure Conn (Node : Type) where
  stage : Stage Node := .first
  toClient : Bytes := []
  toFace : Bytes := []
  ended : Bool := false
  destroyed : Bool := false
  faceClosed : Bool := false
  up : Nat := 0
  down : Nat := 0
  extracted : Option (Text × Number) := none
  behind : Bytes := []

inductive Event where
  | data (chunk : Bytes)
  | connected
  | connectFailed
  | upstream (chunk : Bytes)
  | upstreamEnd
  | upstreamError
  | clientEnd
  | clientClose
  | clientError
  deriving DecidableEq

def Conn.setStage (c : Conn Node) (stage : Stage Node) : Conn Node := { c with stage }

def Conn.setBehind (c : Conn Node) (behind : Bytes) : Conn Node := { c with behind }

def Conn.write (c : Conn Node) (b : Bytes) : Conn Node :=
  if c.destroyed then c else { c with toClient := c.toClient ++ b }

def Conn.end (c : Conn Node) (b : Bytes) : Conn Node :=
  let c := c.write b
  { c with stage := .done, ended := true }

def Conn.destroy (c : Conn Node) : Conn Node := { c with stage := .done, destroyed := true }

/-- The listener of `relay`. -/
def Conn.relayed (c : Conn Node) (chunk : Bytes) : Conn Node :=
  { c with up := c.up + chunk.length, toFace := c.toFace ++ chunk }

/-- Put bytes back in front of the stream. The stream flows, so they are emitted to the
listener attached, which the relay alone keeps while it runs. -/
def Conn.unshift (c : Conn Node) (chunk : Bytes) : Conn Node :=
  match c.stage with
  | .relaying => c.relayed chunk
  | _ => c

def Conn.extract (c : Conn Node) (host : Text) (port : Number) : Conn Node :=
  { c with extracted := some (host, port) }

variable (server : ProxyServer Node)

/-- The node a target is reached through, `some none` for a direct connection. No result
means the rules reject it or no node is available. -/
def connect (host : Text) : Option (Option Node) :=
  match server.decide host with
  | .reject => none
  | .proxy => server.resolveNode.map some
  | .direct => some none

/-! ## SOCKS5 inbound -/

def socks5Reply (code : UInt8) : Bytes := [0x05, code, 0x00, 0x01, 0, 0, 0, 0, 0, 0]

/-- `(:0)+(:|$)`, with what follows it. -/
def zeroRepeats : Text → Option Text
  | ':' :: '0' :: rest =>
      zeroRepeats rest <|> match rest with
        | [] => some []
        | ':' :: rest => some rest
        | _ => none
  | _ => none

/-- `0(:0)+(:|$)`, with what follows it. -/
def zeroRun : Text → Option Text
  | '0' :: rest => zeroRepeats rest
  | _ => none

def compressFrom : Text → Text
  | [] => []
  | c :: rest =>
      match (if c = ':' then zeroRun rest else none) with
      | some after => "::".toList ++ after
      | none => c :: compressFrom rest

/-- `replace(/(^|:)0(:0)+(:|$)/, "::")` -/
def compressZeros (s : Text) : Text :=
  match zeroRun s with
  | some after => "::".toList ++ after
  | none => compressFrom s

/-- The decimal digits of a number. -/
def decimal (n : Nat) : Text := Nat.toDigits 10 n

/-- The groups of the address in a request. -/
def socks5Groups (header : Bytes) : List Text :=
  (List.range 8).map fun i => Bytes.hex (header.subarray (4 + i * 2) (6 + i * 2))

/-- Host, port and rest of a request; none where the source throws. -/
def readSocks5Request (header : Bytes) : Option (Text × Nat × Bytes) :=
  match (header[3]? : Option UInt8) with
  | some 0x01 => do
      let host := ['.'].intercalate ((header.subarray 4 8).map fun b => decimal b.toNat)
      let port ← Bytes.readUInt16BE header 8
      return (host, port, header.drop 10)
  | some 0x04 => do
      let host := compressZeros ([':'].intercalate (socks5Groups header))
      let port ← Bytes.readUInt16BE header 20
      return (host, port, header.drop 22)
  | some 0x03 => do
      let length ← header[4]?
      let host := Bytes.utf8Decode (header.subarray 5 (5 + length.toNat))
      let port ← Bytes.readUInt16BE header (5 + length.toNat)
      return (host, port, header.drop (7 + length.toNat))
  | _ => none

/-- The methods a greeting offers, as far as the chunk reaches. -/
def greetingMethods (greeting : Bytes) : Bytes :=
  match greeting[1]? with
  | some count => greeting.subarray 2 (2 + count.toNat)
  | none => []

/-- The part of `handleSocks5` before the request is read. -/
def handleSocks5 (c : Conn Node) (greeting : Bytes) : Conn Node :=
  if 0x00 ∈ greetingMethods greeting then (c.write [0x05, 0x00]).setStage .request
  else (c.write [0x05, 0xff]).end []

/-- The part of `handleSocks5` after the request is read. -/
def handleSocks5Request (c : Conn Node) (header : Bytes) : Conn Node :=
  match readSocks5Request header with
  | none => c.destroy
  | some (host, port, rest) =>
      let c := (c.extract host (.finite port)).setBehind rest
      match server.decide host with
      | .reject => c.end (socks5Reply 0x02)
      | _ =>
          match server.connect host with
          | none => c.end (socks5Reply 0x05)
          | some node => c.setStage (.connecting node host (.finite port) (.socks5 rest))

/-! ## HTTP inbound -/

def crlf : Text := "\r\n".toList

def badRequest : Bytes := Bytes.utf8Encode "HTTP/1.1 400 Bad Request\r\n\r\n".toList

def badGateway : Bytes := Bytes.utf8Encode "HTTP/1.1 502 Bad Gateway\r\n\r\n".toList

def established : Bytes := Bytes.utf8Encode "HTTP/1.1 200 Connection Established\r\n\r\n".toList

/-- Host and port of a CONNECT target; none without text before a colon. -/
def connectTarget (target : Text) : Option (Text × Number) :=
  (lastIndexOf target ':').bind fun colon =>
    if colon = 0 then none
    else some (target.take colon, Number.ofText (target.drop (colon + 1)))

def handleConnect (c : Conn Node) (target : Text) : Conn Node :=
  match connectTarget target with
  | none => c.end badRequest
  | some (host, port) =>
      let c := c.extract host port
      match server.connect host with
      | none => c.end badGateway
      | some node => c.setStage (.connecting node host port .connect)

/-- `/^(proxy-connection|connection):/i` on a trimmed line. -/
def isConnectionHeader (line : Text) : Bool :=
  let line := (Text.trim line).map Char.toLower
  startsWith line "proxy-connection:".toList || startsWith line "connection:".toList

/-- The rewritten head that opens the upstream request. -/
def outbound (method : Text) (url : Url) (lines : List Text) : Bytes :=
  let rewritten := lines.tail.filter fun line => !isConnectionHeader line
  Bytes.utf8Encode (method ++ " ".toList ++ (url.pathname ++ url.search) ++
    " HTTP/1.1\r\n".toList ++ crlf.intercalate rewritten ++
    "\r\nConnection: close\r\n\r\n".toList)

/-- The port of a URL, 80 where it names none. -/
def urlPort (url : Url) : Number := if url.port.isEmpty then 80 else Number.ofText url.port

def handleAbsolute (c : Conn Node) (method target : Text) (lines : List Text) : Conn Node :=
  match server.parseUrl target with
  | none => c.end badRequest
  | some url =>
      let c := c.extract url.hostname (urlPort url)
      match server.connect url.hostname with
      | none => c.end badGateway
      | some node =>
          c.setStage
            (.connecting node url.hostname (urlPort url) (.absolute (outbound method url lines)))

/-- Method and target of a request line. -/
def requestLine (lines : List Text) : Text × Option Text :=
  match (lines.headD []).splitOn ' ' with
  | [] => ([], none)
  | method :: rest => (method, rest.head?)

/-- The part of `handleHttp` after the head is read. -/
def handleHead (c : Conn Node) (head : Text) : Conn Node :=
  let lines := split head crlf
  match requestLine lines with
  | (method, target) =>
      if method = "CONNECT".toList then
        match target with
        | some target => server.handleConnect c target
        | none => c.destroy
      else
        match target with
        | some target =>
            if startsWith target "http://".toList || startsWith target "https://".toList then
              server.handleAbsolute c method target lines
            else c.end badRequest
        | none => c.end badRequest

/-- The four bytes that end a head. -/
def headEnd : Bytes := [13, 10, 13, 10]

/-- One pass of the loop of `readHttpHead`. -/
def readHttpHead (c : Conn Node) (buffer : Bytes) : Conn Node :=
  match Bytes.indexOf headEnd buffer with
  | none => c.setStage (.head buffer)
  | some stop =>
      let rest := buffer.drop (stop + 4)
      server.handleHead ((c.unshift rest).setBehind rest) (Bytes.latin1 (buffer.take stop))

/-- The listener `handle` attaches for the first chunk. -/
def handle (c : Conn Node) (first : Bytes) : Conn Node :=
  if first.head? = some 0x05 then handleSocks5 c first else server.readHttpHead c first

/-! ## Events -/

/-- What follows when the target is connected. The rest of a SOCKS5 request is unshifted before
`relay` attaches its listener, and is taken to be discarded. -/
def Conn.opened (c : Conn Node) : Reply → Conn Node
  | .socks5 rest => ((c.write (socks5Reply 0x00)).unshift rest).setStage .relaying
  | .connect => (c.write established).setStage .relaying
  | .absolute outbound =>
      { c with stage := .answering, up := c.up + outbound.length,
               toFace := c.toFace ++ outbound }

/-- What follows when the connect fails. -/
def Conn.refused (c : Conn Node) : Reply → Conn Node
  | .socks5 _ => c.end (socks5Reply 0x05)
  | .connect => c.end badGateway
  | .absolute _ => c.end badGateway

/-- A chunk from the client goes to the listener attached, if any. -/
def data (c : Conn Node) (chunk : Bytes) : Conn Node :=
  match c.stage with
  | .first => server.handle c chunk
  | .request => server.handleSocks5Request c chunk
  | .head buffer => server.readHttpHead c (buffer ++ chunk)
  | .relaying => (c.relayed chunk).setBehind (c.behind ++ chunk)
  | _ => c.setBehind (c.behind ++ chunk)

/-- One chunk of the answer, written by `pumpInto`. -/
def Conn.pump (c : Conn Node) (chunk : Bytes) : Conn Node :=
  if c.destroyed then c
  else { c with toClient := c.toClient ++ chunk, down := c.down + chunk.length }

/-- The answer ends. -/
def Conn.pumpEnd (c : Conn Node) : Conn Node := { c with ended := c.ended || !c.destroyed }

def step (c : Conn Node) : Event → Conn Node
  | .data chunk => server.data c chunk
  | .connected =>
      match c.stage with
      | .connecting _ _ _ reply => c.opened reply
      | _ => c
  | .connectFailed =>
      match c.stage with
      | .connecting _ _ _ reply => c.refused reply
      | _ => c
  | .upstream chunk =>
      match c.stage with
      | .relaying => c.pump chunk
      | .answering => c.pump chunk
      | _ => c
  | .upstreamEnd =>
      match c.stage with
      | .relaying => c.pumpEnd
      | .answering => c.pumpEnd
      | _ => c
  | .upstreamError =>
      match c.stage with
      | .relaying => { c with destroyed := true }
      | .answering => { c with destroyed := true }
      | _ => c
  | .clientEnd =>
      match c.stage with
      | .relaying => { c with faceClosed := true }
      | _ => c
  | .clientClose =>
      match c.stage with
      | .relaying => { c with faceClosed := true, destroyed := true }
      | _ => { c with destroyed := true }
  | .clientError =>
      match c.stage with
      | .request => c.destroy
      | .head _ => c.destroy
      | .relaying => { c with faceClosed := true }
      | _ => c

/-- The connection after a history of events. -/
def runFrom (c : Conn Node) (events : List Event) : Conn Node := events.foldl server.step c

def run (events : List Event) : Conn Node := server.runFrom {} events

end ProxyServer
end DshClashProxy.Core
