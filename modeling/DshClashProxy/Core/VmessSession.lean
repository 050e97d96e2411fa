import DshClashProxy.Core.Vmess
import DshClashProxy.Core.VmessHeader
import DshClashProxy.Lib.Messages

/-!
# A VMess session

The client writes its header and pipelines its body behind it. The server answers once it has read
the header, with a header of its own in front of its first chunk, and the client takes both off when
its face is read. However their calls interleave, each side gets the other's chunks in order.
-/
namespace DshClashProxy.Core.VmessSession

open Js Js.Text Lib.ByteSource Lib.Messages Transports InboundHost EncodeAddr Vless VmessKdf Sip004
open Vmess (Block Gcm VmessChunkWriter VmessChunkReader chunkNonce parts chunkCount)
open VmessHeader (Crypto Command CommandArgs Padding Draw Rejected kdf16 kdf12 receive
  sealVmessAeadHeader buildVmessCommand Plain addressOf)

def KDF_SALT_RESP_LEN_KEY : Text := "AEAD Resp Header Len Key".toList

def KDF_SALT_RESP_LEN_IV : Text := "AEAD Resp Header Len IV".toList

def KDF_SALT_RESP_KEY : Text := "AEAD Resp Header Key".toList

def KDF_SALT_RESP_IV : Text := "AEAD Resp Header IV".toList

variable (crypto : Crypto)

/-- The nonces of the body have 12 bytes. -/
def bodyNonce (nonce : Bytes) : Sized 12 :=
  if h : nonce.length = 12 then ⟨nonce, h⟩ else Shadowsocks.zeros 12

/-- The cipher as the body uses it, without associated data. -/
def bodyGcm : Gcm where
  encrypt key nonce plaintext := crypto.gcm.encrypt key (bodyNonce nonce) [] plaintext
  decrypt key nonce ciphertext tag := crypto.gcm.decrypt key (bodyNonce nonce) [] ciphertext tag
  decrypt_encrypt key nonce plaintext :=
    crypto.gcm.decrypt_encrypt key (bodyNonce nonce) [] plaintext
  length_ciphertext key nonce plaintext :=
    crypto.gcm.length_ciphertext key (bodyNonce nonce) [] plaintext
  length_tag key nonce plaintext := crypto.gcm.length_tag key (bodyNonce nonce) [] plaintext

/-- `createHash("sha256").update(b).digest().subarray(0, 16)` -/
def digest16 (b : Bytes) : Block :=
  ⟨(crypto.sha256 b).val.subarray 0 16, by
    rw [Bytes.subarray, List.drop_zero, List.length_take, (crypto.sha256 b).property]
    rfl⟩

/-! ## The client -/

section
variable {source : Source UInt8} {ε : Type}

/-- A value, or the error that is thrown in place of it. -/
def orThrow {β : Type} (error : ε) : Option β → source.Reads ε β
  | some b => pure b
  | none => throw error

structure Response where
  responseHeader : Bytes
  bodyKey : Block
  bodyIV : Block

def unauthentic : Text := "Unsupported state or unable to authenticate data".toList

def outOfRange : Text := "The value of \"value\" is out of range.".toList

def decodeVmessResponse (reqKey reqIV : Block) : source.Reads Text Response := do
  let respKey := digest16 crypto reqKey.val
  let respIV := digest16 crypto reqIV.val
  let lengthSealed ← Source.next 18
  let lengthPlain ← orThrow unauthentic (VmessHeader.gcmOpen crypto
    (kdf16 crypto respKey [.text KDF_SALT_RESP_LEN_KEY])
    (kdf12 crypto respIV [.text KDF_SALT_RESP_LEN_IV]) lengthSealed [])
  let payloadLength ← orThrow outOfRange (Bytes.readUInt16BE lengthPlain 0)
  let payloadSealed ← Source.next (payloadLength + 16)
  let payload ← orThrow unauthentic (VmessHeader.gcmOpen crypto
    (kdf16 crypto respKey [.text KDF_SALT_RESP_KEY])
    (kdf12 crypto respIV [.text KDF_SALT_RESP_IV]) payloadSealed [])
  return { responseHeader := payload, bodyKey := respKey, bodyIV := respIV }

/-- `readChunk`, with the errors it throws: at a counter that no longer fits, and at a chunk that
does not open. -/
def readChunk (range unauthentic : ε) (r : VmessChunkReader) :
    source.Reads ε (Option Bytes × VmessChunkReader) := do
  let sizeHeader ← Source.next 2
  let size ← orThrow range (Bytes.readUInt16BE sizeHeader 0)
  if size = 0 then return (none, r)
  let sealed ← Source.next size
  let nonce ← orThrow range (chunkNonce r.iv r.count)
  let chunk ← orThrow unauthentic (Vmess.gcmOpen (bodyGcm crypto) r.key nonce sealed)
  return (some chunk, { r with count := r.count + 1 })

/-- How far the reader of a body has come. -/
inductive Progress where
  | unopened
  | reading (r : VmessChunkReader)
  | finished

def Progress.after : Option Bytes × VmessChunkReader → Option Bytes × Progress
  | (some chunk, r) => (some chunk, .reading r)
  | (none, _) => (none, .finished)

/-- The keys of a session and the byte that its answer has to echo. -/
structure Keys where
  reqKey : Block
  reqIV : Block
  responseHeader : UInt8

/-- One call of the generator `read`: a chunk, or `none` when it returns. It is not called behind
that. -/
def nextChunk (keys : Keys) : Progress → source.Reads Text (Option Bytes × Progress)
  | .unopened => do
      let resp ← decodeVmessResponse crypto keys.reqKey keys.reqIV
      if resp.responseHeader.head? ≠ some keys.responseHeader then
        throw "vmess: response header V mismatch".toList
      let chunk ← readChunk crypto outOfRange unauthentic ⟨resp.bodyKey, resp.bodyIV, 0⟩
      return Progress.after chunk
  | .reading r => do
      let chunk ← readChunk crypto outOfRange unauthentic r
      return Progress.after chunk
  | .finished => fun _ => none

end

/-- What one sealed part puts on the stream; none where the writer throws. -/
def sendPart (w : VmessChunkWriter) (part : Bytes) : Option (Bytes × VmessChunkWriter) :=
  match VmessChunkWriter.writePart (bodyGcm crypto) { w with sink := [] } part with
  | (w, some ()) => some (w.sink, { w with sink := [] })
  | (_, none) => none

/-! ## A server -/

/-- Sixteen bytes of a command. -/
def block (b : Bytes) : Block := if h : b.length = 16 then ⟨b, h⟩ else Shadowsocks.zeros 16

/-- What a server reads: the request, then the chunks of the body. -/
inductive Message where
  | request (command : Command)
  | chunk (part : Bytes)
  | finish

section
variable {source : Source UInt8}

def Message.after : Option Bytes × VmessChunkReader → Message × Progress
  | (some part, r) => (.chunk part, .reading r)
  | (none, _) => (.finish, .finished)

def nextMessage (cmdKey : Block) : Progress → source.Reads Rejected (Message × Progress)
  | .unopened => do
      let command ← receive crypto cmdKey
      return (.request command, .reading ⟨block command.key, block command.iv, 0⟩)
  | .reading r => do
      let chunk ← readChunk crypto .layout .tag r
      return Message.after chunk
  | .finished => fun _ => none

end

/-- How far a server has come with its answer. -/
inductive Answer where
  | idle
  | ready (command : Command)
  | answering (w : VmessChunkWriter)
  | ended

/-- The header of an answer: the byte to echo, the option and two zero bytes. -/
def encodeResponse (command : Command) : Bytes :=
  let respKey := digest16 crypto (block command.key).val
  let respIV := digest16 crypto (block command.iv).val
  let header := [command.response, command.option, 0x00, 0x00]
  VmessHeader.gcmSeal crypto (kdf16 crypto respKey [.text KDF_SALT_RESP_LEN_KEY])
      (kdf12 crypto respIV [.text KDF_SALT_RESP_LEN_IV]) (Bytes.uint16BE header.length) [] ++
    VmessHeader.gcmSeal crypto (kdf16 crypto respKey [.text KDF_SALT_RESP_KEY])
      (kdf12 crypto respIV [.text KDF_SALT_RESP_IV]) header []

/-- The writer of an answer. -/
def answerWriter (command : Command) : VmessChunkWriter where
  key := digest16 crypto (block command.key).val
  iv := digest16 crypto (block command.iv).val

/-- A chunk of the answer, or its end, from a writer. -/
def sendChunk (w : VmessChunkWriter) : Option Bytes → Option (Bytes × Answer)
  | some part => (sendPart crypto w part).map fun r => (r.1, .answering r.2)
  | none => some (({ w with sink := [] } : VmessChunkWriter).end.sink, .ended)

/-- The header of the answer goes out with its first chunk. -/
def sendAnswer : Answer → Option Bytes → Option (Bytes × Answer)
  | .idle, _ => none
  | .ready command, chunk =>
      (sendChunk crypto (answerWriter crypto command) chunk).map fun r =>
        (encodeResponse crypto command ++ r.1, r.2)
  | .answering w, chunk => sendChunk crypto w chunk
  | .ended, _ => none

/-! ## The tunnel -/

/-- From the client to the server. Once the face is closed there is no socket to write to. -/
def upCodec (cmdKey : Block) : Codec UInt8 Rejected Message where
  Sender := Option VmessChunkWriter
  Receiver := Progress
  encode
    | some w, .chunk part => (sendPart crypto w part).map fun r => (r.1, some r.2)
    | some w, .finish => some (({ w with sink := [] } : VmessChunkWriter).end.sink, none)
    | _, _ => none
  decode := nextMessage crypto cmdKey

/-- From the server to the client. -/
def downCodec (keys : Keys) : Codec UInt8 Text (Option Bytes) where
  Sender := Answer
  Receiver := Progress
  encode := sendAnswer crypto
  decode := nextChunk crypto keys

/-- A session. The last two fields are history: the writes of the client until it closed its face,
and those of the server that came behind the request and before the end of the answer. -/
structure Tunnel (cmdKey : Block) (keys : Keys) where
  up : Pipe (upCodec crypto cmdKey)
  down : Pipe (downCodec crypto keys)
  written : List Bytes := []
  answered : List Bytes := []

inductive Turn where
  /-- `write` of the face. -/
  | write (data : Bytes)
  /-- The server reads on. -/
  | serve
  | answer (data : Bytes)
  | finish
  /-- `next` of the generator `read` of the face. -/
  | read
  /-- `close` of the face: `writer.end()`, and then the socket is destroyed. Of what is in flight
  then each side may still get a front. -/
  | close

section
variable {crypto} {cmdKey : Block} {keys : Keys}

/-- The server can answer: it has the request, and the answer has not ended. -/
def Answer.open : Answer → Bool
  | .ready _ => true
  | .answering _ => true
  | _ => false

/-- Once the server has read the request, its answer can begin. -/
def Tunnel.begin (t : Tunnel crypto cmdKey keys) : Tunnel crypto cmdKey keys :=
  match t.down.sender, t.up.received with
  | Answer.idle, .request command :: _ =>
      { t with down := { t.down with sender := Answer.ready command } }
  | _, _ => t

def Tunnel.closed (t : Tunnel crypto cmdKey keys) : Bool :=
  Option.isNone (t.up.sender : Option VmessChunkWriter)

def Tunnel.step (t : Tunnel crypto cmdKey keys) : Turn → Tunnel crypto cmdKey keys
  | .write data =>
      if t.closed then t
      else
        { t with up := t.up.sendAll ((parts data).map .chunk), written := t.written ++ [data] }
  | .serve => ({ t with up := t.up.receive } : Tunnel crypto cmdKey keys).begin
  | .answer data =>
      if Answer.open t.down.sender then
        { t with down := t.down.sendAll ((parts data).map some), answered := t.answered ++ [data] }
      else t
  | .finish => { t with down := t.down.send none }
  | .read => { t with down := t.down.receive }
  | .close => { t with up := t.up.send .finish }

def Tunnel.run (t : Tunnel crypto cmdKey keys) (turns : List Turn) : Tunnel crypto cmdKey keys :=
  turns.foldl Tunnel.step t

end

/-- The session once `vmessConnect` has returned: the header is in flight, and nothing else. -/
def connected (cmdKey : Block) (args : CommandArgs) (header : Bytes) (command : Command) :
    Tunnel crypto cmdKey ⟨args.reqKey, args.reqIV, args.responseHeader⟩ where
  up := { sender := some { key := args.reqKey, iv := args.reqIV }, receiver := .unopened,
          flight := header, sent := [.request command] }
  down := { sender := Answer.idle, receiver := .unopened }

/-! ## Chunks -/

section
variable {crypto} {source : Source UInt8} {ε : Type}

theorem consumes_orThrow {β : Type} {error : ε} {value : Option β} {b : β} (h : value = some b) :
    Source.Consumes (orThrow error value : source.Reads ε β) [] b := by
  rw [h]
  exact Source.consumes_pure b

/-- A part is sent under the next nonce, and refused where it or its nonce does not fit. -/
theorem sendPart_inv {w w' : VmessChunkWriter} {part b : Bytes}
    (h : sendPart crypto w part = some (b, w')) :
    ∃ nonce, chunkNonce w.iv w.count = some nonce ∧
      (Vmess.gcmSeal (bodyGcm crypto) w.key nonce part).length < 65536 ∧
      b = Bytes.uint16BE (Vmess.gcmSeal (bodyGcm crypto) w.key nonce part).length ++
        Vmess.gcmSeal (bodyGcm crypto) w.key nonce part ∧
      w' = { w with count := w.count + 1, sink := [] } := by
  unfold sendPart VmessChunkWriter.writePart at h
  cases hn : chunkNonce w.iv w.count with
  | none =>
      rw [hn] at h
      cases h
  | some nonce =>
      simp only [hn] at h
      split at h
      · next w₁ hw =>
          split at hw
          · next hlt =>
              cases hw
              cases h
              exact ⟨nonce, rfl, hlt, rfl, rfl⟩
          · cases hw
      · cases h

theorem consumes_readChunk {w w' : VmessChunkWriter} {part b : Bytes} {r : VmessChunkReader}
    {range unauthentic : ε} (hkey : r.key = w.key) (hiv : r.iv = w.iv) (hcount : r.count = w.count)
    (h : sendPart crypto w part = some (b, w')) :
    Source.Consumes (readChunk crypto range unauthentic r : source.Reads ε _) b
      (some part, { r with count := r.count + 1 }) := by
  obtain ⟨nonce, hn, hlt, rfl, -⟩ := sendPart_inv h
  have hne : (Vmess.gcmSeal (bodyGcm crypto) w.key nonce part).length ≠ 0 := by
    rw [Vmess.length_gcmSeal]
    omega
  refine (Source.consumes_of_length rfl).bind ?_
  rw [Bytes.readUInt16BE_uint16BE hlt]
  refine Source.Consumes.of_pure ?_
  simp only [if_neg hne]
  refine (Source.consumes_of_length rfl).bind_nil ?_
  rw [hiv, hcount, hn, hkey]
  refine Source.Consumes.of_pure ((consumes_orThrow ?_).bind_nil (Source.consumes_pure _))
  exact Vmess.gcmOpen_gcmSeal _ _ _ _

theorem consumes_end {range unauthentic : ε} (r : VmessChunkReader) :
    Source.Consumes (readChunk crypto range unauthentic r : source.Reads ε _) [0, 0]
      (none, r) := by
  have hsize : Bytes.readUInt16BE [0, 0] 0 = some 0 := by decide
  refine (Source.consumes_of_length rfl).bind_nil ?_
  rw [hsize]
  exact Source.Consumes.of_pure (Source.consumes_pure _)

/-- The chunk reader of the body returns what this one does, and nothing where this one throws. -/
theorem readChunk_eq {range unauthentic : ε} (r : VmessChunkReader) (s : source.State) :
    VmessChunkReader.readChunk (bodyGcm crypto) source (r, s) =
      match (readChunk crypto range unauthentic r : source.Reads ε _) s with
      | some (.ok (chunk, r'), s') => some (chunk, r', s')
      | _ => none := by
  unfold VmessChunkReader.readChunk readChunk
  cases h2 : source.read s 2 with
  | none => simp [Source.bind_apply, Source.next, h2]
  | some header =>
      obtain ⟨sizeHeader, s₁⟩ := header
      cases hsize : Bytes.readUInt16BE sizeHeader 0 with
      | none => simp [Source.bind_apply, Source.next, h2, hsize, orThrow, Source.throw_apply]
      | some size =>
          by_cases h0 : size = 0
          · simp [Source.bind_apply, Source.next, h2, hsize, orThrow, Source.pure_apply, h0]
          · cases hr : source.read s₁ size with
            | none =>
                simp [Source.bind_apply, Source.next, h2, hsize, orThrow, Source.pure_apply, h0, hr]
            | some body =>
                obtain ⟨sealed, s₂⟩ := body
                cases hn : chunkNonce r.iv r.count with
                | none =>
                    simp [Source.bind_apply, Source.next, h2, hsize, orThrow, Source.pure_apply,
                      Source.throw_apply, h0, hr, hn]
                | some nonce =>
                    cases ho : Vmess.gcmOpen (bodyGcm crypto) r.key nonce sealed <;>
                      simp only [Source.bind_apply, Source.next, h2, hsize, orThrow,
                        Source.pure_apply, Source.throw_apply, h0, hr, hn, ho, Option.map_some,
                        if_false, Option.bind_eq_bind, Option.bind_some, Option.bind_none,
                        Option.pure_def]

/-- The header of an answer opens to its four bytes and the keys of the body. -/
theorem consumes_response (command : Command) :
    Source.Consumes
      (decodeVmessResponse crypto (block command.key) (block command.iv) : source.Reads Text _)
      (encodeResponse crypto command)
      ⟨[command.response, command.option, 0x00, 0x00], (answerWriter crypto command).key,
        (answerWriter crypto command).iv⟩ := by
  have hfour : [command.response, command.option, 0x00, 0x00].length < 65536 := by simp
  refine (Source.consumes_of_length (VmessHeader.length_gcmSeal crypto _ _ _ _)).bind ?_
  rw [VmessHeader.gcmOpen_gcmSeal]
  refine Source.Consumes.of_pure ?_
  rw [Bytes.readUInt16BE_uint16BE hfour]
  refine Source.Consumes.of_pure ?_
  refine (Source.consumes_of_length (VmessHeader.length_gcmSeal crypto _ _ _ _)).bind_nil ?_
  rw [VmessHeader.gcmOpen_gcmSeal]
  exact Source.Consumes.of_pure (Source.consumes_pure _)

end

/-! ## The two directions agree -/

section
variable {crypto} {cmdKey : Block} {keys : Keys}

/-- A reader that stands where a writer does. -/
structure Beside (w : VmessChunkWriter) (r : VmessChunkReader) : Prop where
  key : r.key = w.key
  iv : r.iv = w.iv
  count : r.count = w.count

theorem Beside.after {w w' : VmessChunkWriter} {r : VmessChunkReader} (h : Beside w r)
    {part b : Bytes} (hsend : sendPart crypto w part = some (b, w')) :
    Beside w' { r with count := r.count + 1 } := by
  obtain ⟨nonce, -, -, -, rfl⟩ := sendPart_inv hsend
  exact ⟨h.key, h.iv, congrArg (· + 1) h.count⟩

/-- A client that writes, and a server that reads its body. -/
inductive Writes : Option VmessChunkWriter → Progress → Prop where
  | writing {w : VmessChunkWriter} {r : VmessChunkReader} (h : Beside w r) :
      Writes (some w) (.reading r)
  | closed : Writes none .finished

variable (crypto cmdKey) in
def upAgree : (upCodec crypto cmdKey).Agree where
  InStep := Writes
  waits := by
    rintro w d h
    cases h <;> rfl
  carries := by
    rintro w w' d i b h hsend
    cases h with
    | closed => cases hsend
    | @writing w r hr =>
        cases i with
        | chunk part =>
            obtain ⟨⟨b', w''⟩, hpart, he⟩ := Option.map_eq_some_iff.mp
              (hsend : (sendPart crypto w part).map _ = some (b, w'))
            cases he
            refine ⟨.reading { r with count := r.count + 1 }, ?_, .writing (hr.after hpart)⟩
            exact (consumes_readChunk hr.key hr.iv hr.count hpart).bind_nil
              (Source.consumes_pure _)
        | request command => cases hsend
        | finish =>
            cases hsend
            exact ⟨.finished, (consumes_end r).bind_nil (Source.consumes_pure _), .closed⟩

/-- The keys of a session are those of the command that asked for it. -/
structure Keys.Of (keys : Keys) (command : Command) : Prop where
  key : block command.key = keys.reqKey
  iv : block command.iv = keys.reqIV
  response : command.response = keys.responseHeader

/-- A server that sends an answer, and a client that reads it. -/
inductive Answers (keys : Keys) : Answer → Progress → Prop where
  | idle : Answers keys .idle .unopened
  | ready {command : Command} (h : keys.Of command) : Answers keys (.ready command) .unopened
  | answering {w : VmessChunkWriter} {r : VmessChunkReader} (h : Beside w r) :
      Answers keys (.answering w) (.reading r)
  | ended : Answers keys .ended .finished

variable (keys) in
theorem consumes_sendChunk {w : VmessChunkWriter} {r : VmessChunkReader} (h : Beside w r)
    {chunk : Option Bytes} {b : Bytes} {answer : Answer}
    (hsend : sendChunk crypto w chunk = some (b, answer)) {source : Source UInt8} :
    ∃ result, Source.Consumes
        (readChunk crypto outOfRange unauthentic r : source.Reads Text _) b result ∧
      (Progress.after result).1 = chunk ∧ Answers keys answer (Progress.after result).2 := by
  cases chunk with
  | some part =>
      obtain ⟨⟨b', w'⟩, hpart, he⟩ := Option.map_eq_some_iff.mp hsend
      cases he
      exact ⟨_, consumes_readChunk h.key h.iv h.count hpart, rfl, .answering (h.after hpart)⟩
  | none =>
      cases hsend
      exact ⟨_, consumes_end r, rfl, .ended⟩

variable (crypto keys) in
def downAgree : (downCodec crypto keys).Agree where
  InStep := Answers keys
  waits := by
    rintro e d h
    cases h <;> rfl
  carries := by
    rintro e e' d i b h hsend
    cases h with
    | idle => cases hsend
    | ended => cases hsend
    | @answering w r h =>
        obtain ⟨result, hread, rfl, hanswers⟩ := consumes_sendChunk keys h
          (hsend : sendChunk crypto w i = some (b, e'))
        exact ⟨(Progress.after result).2, hread.bind_nil (Source.consumes_pure _), hanswers⟩
    | @ready command h =>
        obtain ⟨⟨b', answer⟩, hchunk, he⟩ := Option.map_eq_some_iff.mp
          (hsend : (sendChunk crypto (answerWriter crypto command) i).map _ = some (b, e'))
        cases he
        obtain ⟨result, hread, rfl, hanswers⟩ := consumes_sendChunk keys
          (r := ⟨(answerWriter crypto command).key, (answerWriter crypto command).iv, 0⟩)
          ⟨rfl, rfl, rfl⟩ hchunk
        refine ⟨(Progress.after result).2, ?_, hanswers⟩
        have hopen : Source.Consumes (decodeVmessResponse crypto (block command.key)
          (block command.iv) : (Source.ofList UInt8).Reads Text _) _ _ := consumes_response command
        rw [h.key, h.iv] at hopen
        refine hopen.bind ?_
        rw [h.response]
        simp only [List.head?_cons, ne_eq, not_true_eq_false, if_false]
        exact hread.bind_nil (Source.consumes_pure _)

/-! ## What each turn keeps -/

/-- Both directions are in order, and an answer that has not begun has left no trace. -/
structure Going (t : Tunnel crypto cmdKey keys) (command : Command) : Prop where
  up : ∃ pending, Ordered (upAgree crypto cmdKey) t.up pending
  first : [.request command] <+: t.up.sent
  down : ∃ pending, Ordered (downAgree crypto keys) t.down pending
  idle : t.down.sender = Answer.idle → t.down = { sender := Answer.idle, receiver := .unopened }

theorem sendAnswer_ne_idle {answer answer' : Answer} {chunk : Option Bytes} {b : Bytes}
    (h : sendAnswer crypto answer chunk = some (b, answer')) : answer' ≠ .idle := by
  have hchunk : ∀ {w b}, sendChunk crypto w chunk = some (b, answer') → answer' ≠ .idle := by
    intro w b hs
    cases chunk with
    | some part =>
        obtain ⟨_, -, he⟩ := Option.map_eq_some_iff.mp hs
        cases he
        exact nofun
    | none =>
        cases hs
        exact nofun
  cases answer with
  | idle => cases h
  | ready command =>
      obtain ⟨⟨b', a⟩, hs, he⟩ := Option.map_eq_some_iff.mp h
      cases he
      exact hchunk hs
  | answering w => exact hchunk h
  | ended => cases h

theorem send_idle (p : Pipe (downCodec crypto keys)) (chunk : Option Bytes)
    (h : (p.send chunk).sender = Answer.idle) : p.send chunk = p := by
  rw [Pipe.send] at h ⊢
  cases he : (downCodec crypto keys).encode p.sender chunk with
  | none => rfl
  | some r =>
      obtain ⟨b, answer⟩ := r
      have he' : sendAnswer crypto p.sender chunk = some (b, answer) := he
      rw [he] at h
      exact absurd h (sendAnswer_ne_idle he')

theorem sendAll_idle (p : Pipe (downCodec crypto keys)) (chunks : List (Option Bytes))
    (h : (p.sendAll chunks).sender = Answer.idle) : p.sendAll chunks = p := by
  induction chunks generalizing p with
  | nil => rfl
  | cons chunk rest ih =>
      have hrest : (p.send chunk).sendAll rest = p.send chunk := ih _ h
      have hfirst : (p.send chunk).sender = Answer.idle := by
        rw [← hrest]
        exact h
      exact hrest.trans (send_idle p chunk hfirst)

theorem sendAll_front {α ε ι : Type} {c : Codec α ε ι} (p : Pipe c) (is : List ι) :
    p.sent <+: (p.sendAll is).sent := by
  induction is generalizing p with
  | nil => exact List.prefix_rfl
  | cons i rest ih =>
      refine List.IsPrefix.trans ?_ (ih (p.send i))
      rw [Pipe.send]
      split
      · exact List.prefix_rfl
      · exact List.prefix_append _ _

/-- The first message a server receives is the one sent first. -/
theorem Going.head {t : Tunnel crypto cmdKey keys} {command command' : Command}
    (h : Going t command) {rest : List Message} (hr : t.up.received = .request command' :: rest) :
    command' = command := by
  obtain ⟨pending, hup⟩ := h.up
  obtain ⟨more, hsent⟩ := h.first
  have horder := hup.inOrder
  rw [hr, ← hsent] at horder
  injection horder with hfirst
  injection hfirst with he
  exact he.symm

theorem Going.begin {t : Tunnel crypto cmdKey keys} {command : Command} (h : Going t command)
    (hkeys : keys.Of command) : Going t.begin command := by
  unfold Tunnel.begin
  split
  · next command' rest hidle hr =>
      refine ⟨h.up, h.first, ⟨[], ?_⟩, nofun⟩
      rw [h.head hr, h.idle hidle]
      exact ⟨rfl, .caughtUp (.ready hkeys), rfl⟩
  · exact h

theorem Going.step {t : Tunnel crypto cmdKey keys} {command : Command} (h : Going t command)
    (hkeys : keys.Of command) (turn : Turn) : Going (t.step turn) command := by
  obtain ⟨upPending, hup⟩ := h.up
  obtain ⟨downPending, hdown⟩ := h.down
  cases turn with
  | write data =>
      rw [Tunnel.step]
      split
      · exact h
      · exact ⟨hup.sendAll_ordered _, h.first.trans (sendAll_front _ _), h.down, h.idle⟩
  | close =>
      exact ⟨hup.send_ordered _, h.first.trans (sendAll_front t.up [.finish]), h.down, h.idle⟩
  | serve =>
      refine Going.begin ⟨hup.receive_ordered, ?_, h.down, h.idle⟩ hkeys
      rw [t.up.receive_sender.2]
      exact h.first
  | answer data =>
      rw [Tunnel.step]
      split
      · refine ⟨h.up, h.first, hdown.sendAll_ordered _, fun hidle => ?_⟩
        have hsame := sendAll_idle t.down _ hidle
        have hwas : t.down.sender = Answer.idle := by
          rw [← hsame]
          exact hidle
        exact hsame.trans (h.idle hwas)
      · exact h
  | finish =>
      refine ⟨h.up, h.first, hdown.send_ordered none, fun hidle => ?_⟩
      have hsame := send_idle t.down none hidle
      have hwas : t.down.sender = Answer.idle := by
        rw [← hsame]
        exact hidle
      exact hsame.trans (h.idle hwas)
  | read =>
      refine ⟨h.up, h.first, hdown.receive_ordered, fun hidle => ?_⟩
      have hwas : t.down.sender = Answer.idle := t.down.receive_sender.1.symm.trans hidle
      change t.down.receive = _
      rw [h.idle hwas]
      rfl

/-! ## What the writers take -/

variable (crypto) in
theorem sendPart_fits {w : VmessChunkWriter} {part : Bytes} (hc : w.count < 65536)
    (hp : part.length ≤ 0x3fff) :
    ∃ b w', sendPart crypto w part = some (b, w') ∧ w'.count = w.count + 1 := by
  have hw := Vmess.writePart_of_lt (bodyGcm crypto) (w := { w with sink := [] }) hc hp
  rw [sendPart, hw]
  exact ⟨_, _, rfl, rfl⟩

/-- Parts that the counter has room for are all sent. -/
theorem up_sendAll (p : Pipe (upCodec crypto cmdKey)) {ps : List Bytes} {w : VmessChunkWriter}
    (hw : p.sender = some w) (hc : w.count + ps.length ≤ 65536)
    (hp : ∀ part ∈ ps, part.length ≤ 0x3fff) :
    (p.sendAll (ps.map .chunk)).sent = p.sent ++ ps.map .chunk ∧
      ∃ w', (p.sendAll (ps.map .chunk)).sender = some w' ∧ w'.count = w.count + ps.length := by
  induction ps generalizing p w with
  | nil => exact ⟨(List.append_nil _).symm, w, hw, rfl⟩
  | cons part rest ih =>
      rw [List.length_cons] at hc
      obtain ⟨b, w₁, hsend, hcount⟩ := sendPart_fits crypto (w := w)
        (by omega) (hp part List.mem_cons_self)
      have he : (upCodec crypto cmdKey).encode p.sender (.chunk part) = some (b, some w₁) := by
        rw [hw]
        change (sendPart crypto w part).map _ = _
        rw [hsend]
        rfl
      have hone : p.send (.chunk part) = { p with
          sender := some w₁, flight := p.flight ++ b, sent := p.sent ++ [.chunk part] } := by
        rw [Pipe.send, he]
      obtain ⟨hsent, w', hw', hlast⟩ := ih (p.send (.chunk part)) (w := w₁) (by rw [hone])
        (by omega) fun q hq => hp q (List.mem_cons_of_mem _ hq)
      refine ⟨hsent.trans ?_, w', hw', hlast.trans ?_⟩
      · rw [hone, List.map_cons, List.append_assoc]
        rfl
      · rw [List.length_cons]
        omega

/-- The chunks an answer consists of so far. -/
def Answer.count : Answer → Nat
  | .answering w => w.count
  | _ => 0

variable (crypto) in
/-- A chunk that the counter has room for is sent while the answer is open. -/
theorem sendAnswer_fits {answer : Answer} (ho : answer.open = true) (hc : answer.count < 65536)
    {part : Bytes} (hp : part.length ≤ 0x3fff) :
    ∃ b answer', sendAnswer crypto answer (some part) = some (b, answer') ∧
      answer'.open = true ∧ answer'.count = answer.count + 1 := by
  cases answer with
  | idle => cases ho
  | ended => cases ho
  | ready command =>
      obtain ⟨b, w, hsend, hw⟩ :=
        sendPart_fits crypto (w := answerWriter crypto command) (Nat.zero_lt_succ _) hp
      refine ⟨encodeResponse crypto command ++ b, .answering w, ?_, rfl, hw⟩
      simp only [sendAnswer, sendChunk, hsend, Option.map_some]
  | answering w =>
      obtain ⟨b, w', hsend, hw⟩ := sendPart_fits crypto hc hp
      refine ⟨b, .answering w', ?_, rfl, hw⟩
      simp only [sendAnswer, sendChunk, hsend, Option.map_some]

theorem down_sendAll (p : Pipe (downCodec crypto keys)) {ps : List Bytes} {count : Nat}
    (ho : Answer.open p.sender = true) (hcount : Answer.count p.sender = count)
    (hc : count + ps.length ≤ 65536) (hp : ∀ part ∈ ps, part.length ≤ 0x3fff) :
    (p.sendAll (ps.map some)).sent = p.sent ++ ps.map some ∧
      Answer.open (p.sendAll (ps.map some)).sender = true ∧
      Answer.count (p.sendAll (ps.map some)).sender = count + ps.length := by
  induction ps generalizing p count with
  | nil => exact ⟨(List.append_nil _).symm, ho, hcount⟩
  | cons part rest ih =>
      rw [List.length_cons] at hc
      obtain ⟨b, answer, hsend, hopen, hnext⟩ := sendAnswer_fits crypto ho
        (by omega) (hp part List.mem_cons_self)
      have he : (downCodec crypto keys).encode p.sender (some part) = some (b, answer) := hsend
      have hone : p.send (some part) =
          { p with sender := answer, flight := p.flight ++ b, sent := p.sent ++ [some part] } := by
        rw [Pipe.send, he]
      have hcounted : Answer.count (p.send (some part)).sender = count + 1 := by
        rw [hone]
        exact hnext.trans (congrArg (· + 1) hcount)
      obtain ⟨hsent, hlast, hn⟩ := ih (p.send (some part)) (by rw [hone]; exact hopen) hcounted
        (by omega) fun q hq => hp q (List.mem_cons_of_mem _ hq)
      refine ⟨hsent.trans ?_, hlast, hn.trans ?_⟩
      · rw [hone, List.map_cons, List.append_assoc]
        rfl
      · rw [List.length_cons]
        omega

theorem parts_le (data : Bytes) : ∀ part ∈ parts data, part.length ≤ 0x3fff :=
  fun part hp => (Vmess.parts_sized data part hp).2

theorem chunkCount_snoc (writes : List Bytes) (data : Bytes) :
    chunkCount (writes ++ [data]) = chunkCount writes + (parts data).length := by
  rw [← Vmess.length_flatMap_parts, ← Vmess.length_flatMap_parts, List.flatMap_append,
    List.length_append, List.flatMap_singleton]

/-- As long as the writes fit the counter, they have all been sent. -/
structure Taken (t : Tunnel crypto cmdKey keys) (command : Command) : Prop where
  up : chunkCount t.written ≤ 65536 →
    (t.up.sent = .request command :: (t.written.flatMap parts).map .chunk ∧
        ∃ w, t.up.sender = some w ∧ w.count = chunkCount t.written) ∨
      (t.up.sent = .request command :: (t.written.flatMap parts).map .chunk ++ [.finish] ∧
        t.up.sender = none)
  down : chunkCount t.answered ≤ 65536 →
    (t.down.sent = (t.answered.flatMap parts).map some ∧
        Answer.count t.down.sender = chunkCount t.answered ∧ t.down.sender ≠ Answer.ended) ∨
      (t.down.sent = (t.answered.flatMap parts).map some ++ [none] ∧
        t.down.sender = Answer.ended)

theorem Taken.begin {t : Tunnel crypto cmdKey keys} {command : Command} (h : Taken t command) :
    Taken t.begin command := by
  unfold Tunnel.begin
  split
  · next command' rest hidle hr =>
      refine ⟨h.up, fun hle => .inl ?_⟩
      rcases h.down hle with ⟨hsent, hwas, -⟩ | ⟨-, hended⟩
      · rw [hidle] at hwas
        exact ⟨hsent, hwas, nofun⟩
      · rw [hidle] at hended
        cases hended
  · exact h

/-- An answer ends once. -/
theorem sendAnswer_end {answer answer' : Answer} {b : Bytes}
    (h : sendAnswer crypto answer none = some (b, answer')) :
    answer' = .ended ∧ answer ≠ .ended := by
  cases answer with
  | idle => cases h
  | ready command =>
      cases h
      exact ⟨rfl, nofun⟩
  | answering w =>
      cases h
      exact ⟨rfl, nofun⟩
  | ended => cases h

theorem Taken.step {t : Tunnel crypto cmdKey keys} {command : Command} (h : Taken t command)
    (turn : Turn) : Taken (t.step turn) command := by
  cases turn with
  | write data =>
      rw [Tunnel.step]
      split
      · exact h
      · next hopen =>
          refine ⟨fun hle => .inl ?_, h.down⟩
          have hcount := chunkCount_snoc t.written data
          have hle : chunkCount (t.written ++ [data]) ≤ 65536 := hle
          rcases h.up (by omega) with ⟨hsent, w, hw, hwas⟩ | ⟨-, hnone⟩
          · obtain ⟨hall, w', hw', hnow⟩ :=
              up_sendAll t.up hw (by rw [hwas]; omega) (parts_le data)
            refine ⟨?_, w', hw', by rw [hnow, hwas]; exact hcount.symm⟩
            change (t.up.sendAll ((parts data).map .chunk)).sent =
              .request command :: ((t.written ++ [data]).flatMap parts).map .chunk
            rw [hall, hsent, List.flatMap_append, List.map_append, List.flatMap_singleton]
            rfl
          · exact absurd (by rw [Tunnel.closed, hnone]; rfl) hopen
  | close =>
      refine ⟨fun hle => .inr ?_, h.down⟩
      rcases h.up hle with ⟨hsent, w, hw, -⟩ | ⟨hsent, hnone⟩
      · have he : (upCodec crypto cmdKey).encode t.up.sender .finish =
            some (({ w with sink := [] } : VmessChunkWriter).end.sink, none) := by
          rw [hw]
          rfl
        have hsend : t.up.send .finish = { t.up with
            sender := none
            flight := t.up.flight ++ ({ w with sink := [] } : VmessChunkWriter).end.sink
            sent := t.up.sent ++ [.finish] } := by
          rw [Pipe.send, he]
        change (t.up.send .finish).sent = _ ∧ (t.up.send .finish).sender = none
        rw [hsend]
        exact ⟨congrArg (· ++ [.finish]) hsent, rfl⟩
      · have he : (upCodec crypto cmdKey).encode t.up.sender .finish = none := by
          rw [hnone]
          rfl
        have hsame : t.up.send .finish = t.up := by rw [Pipe.send, he]
        change (t.up.send .finish).sent = _ ∧ (t.up.send .finish).sender = none
        rw [hsame]
        exact ⟨hsent, hnone⟩
  | serve =>
      obtain ⟨hsender, hsent⟩ := t.up.receive_sender
      have hserved : Taken ({ t with up := t.up.receive } : Tunnel crypto cmdKey keys) command := by
        refine ⟨fun hle => ?_, h.down⟩
        change (t.up.receive.sent = _ ∧ ∃ w, t.up.receive.sender = some w ∧ _) ∨
          (t.up.receive.sent = _ ∧ t.up.receive.sender = none)
        rw [hsender, hsent]
        exact h.up hle
      exact hserved.begin
  | answer data =>
      rw [Tunnel.step]
      split
      · next ho =>
          refine ⟨h.up, fun hle => .inl ?_⟩
          have hcount := chunkCount_snoc t.answered data
          have hle : chunkCount (t.answered ++ [data]) ≤ 65536 := hle
          rcases h.down (by omega) with ⟨hsent, hwas, -⟩ | ⟨-, hended⟩
          · obtain ⟨hall, hopen, hnow⟩ := down_sendAll t.down ho hwas (by omega) (parts_le data)
            refine ⟨?_, hnow.trans hcount.symm, fun he => ?_⟩
            · change (t.down.sendAll ((parts data).map some)).sent =
                ((t.answered ++ [data]).flatMap parts).map some
              rw [hall, hsent, List.flatMap_append, List.map_append, List.flatMap_singleton]
            · rw [he] at hopen
              cases hopen
          · rw [hended] at ho
            cases ho
      · exact h
  | finish =>
      have hstep : t.step .finish = { t with down := t.down.send none } := rfl
      cases he : (downCodec crypto keys).encode t.down.sender none with
      | none =>
          have hsame : t.down.send none = t.down := by rw [Pipe.send, he]
          rw [hstep, hsame]
          exact h
      | some r =>
          obtain ⟨b, answer⟩ := r
          have hsend : t.down.send none = { t.down with
              sender := answer, flight := t.down.flight ++ b, sent := t.down.sent ++ [none] } := by
            rw [Pipe.send, he]
          obtain ⟨hended, hwas⟩ : answer = .ended ∧ t.down.sender ≠ Answer.ended :=
            sendAnswer_end he
          rw [hstep, hsend]
          refine ⟨h.up, fun hle => ?_⟩
          rcases h.down hle with ⟨hsent, -, -⟩ | ⟨-, hn⟩
          · exact .inr ⟨congrArg (· ++ [none]) hsent, hended⟩
          · exact absurd hn hwas
  | read =>
      obtain ⟨hsender, hsent⟩ := t.down.receive_sender
      refine ⟨h.up, fun hle => ?_⟩
      change (t.down.receive.sent = _ ∧ Answer.count t.down.receive.sender = _ ∧
        t.down.receive.sender ≠ _) ∨ (t.down.receive.sent = _ ∧ t.down.receive.sender = _)
      rw [hsender, hsent]
      exact h.down hle

/-! ## Every run -/

/-- What each side may rely on. It gets the messages of the other in order, and rejects none; what
it has not got yet, its next read gets; and everything was sent that was written, as long as the
chunks fit their counter. -/
structure Delivers (t : Tunnel crypto cmdKey keys) (command : Command) : Prop where
  upOrder : t.up.received <+: t.up.sent
  upSent : chunkCount t.written ≤ 65536 →
    t.up.sent = .request command :: (t.written.flatMap parts).map .chunk ++
      if t.closed then [.finish] else []
  upArrives : t.up.received ≠ t.up.sent →
    ∃ message, (t.step .serve).up.received = t.up.received ++ [message]
  downOrder : t.down.received <+: t.down.sent
  downSent : chunkCount t.answered ≤ 65536 →
    t.down.sent = (t.answered.flatMap parts).map some ∨
      t.down.sent = (t.answered.flatMap parts).map some ++ [none]
  downArrives : t.down.received ≠ t.down.sent →
    ∃ chunk, (t.step .read).down.received = t.down.received ++ [chunk]
  accepted : t.up.rejected = none ∧ t.down.rejected = none

theorem run_keeps {t : Tunnel crypto cmdKey keys} {command : Command} (hkeys : keys.Of command)
    (turns : List Turn) (hg : Going t command) (ht : Taken t command) :
    Going (t.run turns) command ∧ Taken (t.run turns) command := by
  induction turns generalizing t with
  | nil => exact ⟨hg, ht⟩
  | cons turn rest ih => exact ih (hg.step hkeys turn) (ht.step turn)

theorem begin_up (t : Tunnel crypto cmdKey keys) : t.begin.up = t.up := by
  unfold Tunnel.begin
  split <;> rfl

theorem Delivers.of_kept {t : Tunnel crypto cmdKey keys} {command : Command}
    (hg : Going t command) (ht : Taken t command) : Delivers t command := by
  obtain ⟨upPending, hup⟩ := hg.up
  obtain ⟨downPending, hdown⟩ := hg.down
  refine ⟨hup.received_front, fun hle => ?_, fun hne => ?_, hdown.received_front,
    fun hle => (ht.down hle).imp (·.1) (·.1), fun hne => ?_, hup.accepted, hdown.accepted⟩
  · rcases ht.up hle with ⟨hsent, w, hw, -⟩ | ⟨hsent, hnone⟩
    · rw [Tunnel.closed, hw, hsent]
      exact (List.append_nil _).symm
    · rw [Tunnel.closed, hnone, hsent]
      rfl
  · cases upPending with
    | nil => exact absurd (hup.inOrder.trans (List.append_nil _)).symm hne
    | cons message pending =>
        refine ⟨message, ?_⟩
        rw [Tunnel.step, begin_up]
        exact hup.receive_next.1
  · cases downPending with
    | nil => exact absurd (hdown.inOrder.trans (List.append_nil _)).symm hne
    | cons chunk pending => exact ⟨chunk, hdown.receive_next.1⟩

end

end DshClashProxy.Core.VmessSession
