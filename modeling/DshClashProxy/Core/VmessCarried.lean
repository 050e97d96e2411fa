import DshClashProxy.Core.VmessSession
import DshClashProxy.Core.WebSocketLink

/-!
# A VMess session over tcp or WebSocket

`vmessConnect` writes the header and every chunk to its socket or to a `WsStream`, and reads what
either gives it. A session over such a carrier does what the plain session does, in which what the
carrier holds is in flight: each of its runs is a run of that one.
-/
namespace DshClashProxy.Core.VmessCarried

open Js Js.Text Lib.ByteSource Lib.Messages Lib.Carriers Transports VmessSession
open Vmess (Block VmessChunkWriter VmessChunkReader parts chunkCount)
open VmessHeader (Crypto Command CommandArgs Padding Draw Rejected Plain addressOf
  sealVmessAeadHeader buildVmessCommand)
open WebSocketLink (webSocket byteFrames roomy_webSocket)
open InboundHost (SpellsGroup)
open EncodeAddr (loopback)

variable {crypto : Crypto} {cmdKey : Block} {keys : Keys} {k : Carrier UInt8}

/-- The two ends, and the carrier between them. Nothing is in flight at the ends themselves. -/
structure Session (crypto : Crypto) (cmdKey : Block) (keys : Keys) (k : Carrier UInt8) where
  ends : Tunnel crypto cmdKey keys
  link : k.State

inductive Turn (k : Carrier UInt8) where
  | ends (turn : VmessSession.Turn)
  | move (m : k.Move)

/-- A part is written by itself. -/
def Session.step (s : Session crypto cmdKey keys k) : Turn k → Session crypto cmdKey keys k
  | .ends (.write data) =>
      if s.ends.closed then s
      else
        let r := sendAll k .up s.ends.up s.link ((parts data).map .chunk)
        { ends := { s.ends with up := r.1, written := s.ends.written ++ [data] }, link := r.2 }
  | .ends .serve =>
      let r := receive k .up s.ends.up s.link
      { ends := ({ s.ends with up := r.1 } : Tunnel crypto cmdKey keys).begin, link := r.2 }
  | .ends (.answer data) =>
      if Answer.open s.ends.down.sender then
        let r := sendAll k .down s.ends.down s.link ((parts data).map some)
        { ends := { s.ends with down := r.1, answered := s.ends.answered ++ [data] }, link := r.2 }
      else s
  | .ends .finish =>
      let r := send k .down s.ends.down s.link none
      { ends := { s.ends with down := r.1 }, link := r.2 }
  | .ends .read =>
      let r := receive k .down s.ends.down s.link
      { ends := { s.ends with down := r.1 }, link := r.2 }
  | .ends .close =>
      let r := send k .up s.ends.up s.link .finish
      { ends := { s.ends with up := r.1 }, link := r.2 }
  | .move m => { s with link := k.move s.link m }

def Session.run (s : Session crypto cmdKey keys k) (turns : List (Turn k)) :
    Session crypto cmdKey keys k := turns.foldl Session.step s

/-- The session once `vmessConnect` has written its header. -/
def opened (crypto : Crypto) (k : Carrier UInt8) (cmdKey : Block) (args : CommandArgs)
    (header : Bytes) (command : Command) :
    Session crypto cmdKey ⟨args.reqKey, args.reqIV, args.responseHeader⟩ k where
  ends := { connected crypto cmdKey args header command with
    up := { sender := some { key := args.reqKey, iv := args.reqIV }, receiver := .unopened,
            sent := [.request command] } }
  link := k.push .up k.start header

/-! ## Reads go on where more arrives -/

section
variable {ε : Type}

theorem extends_orThrow {β : Type} (error : ε) (value : Option β) :
    Extends (orThrow error value : (Source.ofList UInt8).Reads ε β) := by
  cases value with
  | none => exact extends_throw error
  | some b => exact extends_pure b

theorem extends_settled {β : Type} (result : Except ε β) :
    Extends (ExceptT.mk (pure result) : (Source.ofList UInt8).Reads ε β) := by
  cases result with
  | error e => exact extends_throw e
  | ok b => exact extends_pure b

theorem extends_readChunk (range unauthentic : ε) (r : VmessChunkReader) :
    Extends (readChunk crypto range unauthentic r : (Source.ofList UInt8).Reads ε _) := by
  refine (extends_next 2).bind fun sizeHeader => (extends_orThrow _ _).bind fun size => ?_
  split
  · exact extends_pure _
  · exact (extends_next size).bind fun sealed => (extends_orThrow _ _).bind fun nonce =>
      (extends_orThrow _ _).bind fun chunk => extends_pure _

theorem extends_decodeVmessResponse (reqKey reqIV : Block) :
    Extends (decodeVmessResponse crypto reqKey reqIV : (Source.ofList UInt8).Reads Text _) :=
  (extends_next 18).bind fun _ => (extends_orThrow _ _).bind fun _ =>
    (extends_orThrow _ _).bind fun _ => (extends_next _).bind fun _ =>
      (extends_orThrow _ _).bind fun _ => extends_pure _

variable (crypto cmdKey keys) in
theorem down_local : Local (downCodec crypto keys) := by
  intro d
  change Extends (nextChunk crypto keys d)
  cases d with
  | unopened =>
      refine (extends_decodeVmessResponse _ _).bind fun resp => ?_
      split
      · exact (extends_throw _).bind fun _ =>
          (extends_readChunk _ _ _).bind fun _ => extends_pure _
      · exact (extends_readChunk _ _ _).bind fun _ => extends_pure _
  | reading r => exact (extends_readChunk _ _ r).bind fun _ => extends_pure _
  | finished => exact extends_never

theorem extends_receive :
    Extends (VmessHeader.receive crypto cmdKey : (Source.ofList UInt8).Reads Rejected _) :=
  (extends_next 16).bind fun _ => (extends_next 18).bind fun _ => (extends_next 8).bind fun _ =>
    (extends_settled _).bind fun _ => (extends_next _).bind fun _ =>
      (extends_settled _).bind fun _ => extends_settled _

variable (crypto cmdKey) in
theorem up_local : Local (upCodec crypto cmdKey) := by
  intro d
  change Extends (nextMessage crypto cmdKey d)
  cases d with
  | unopened => exact extends_receive.bind fun _ => extends_pure _
  | reading r => exact (extends_readChunk _ _ r).bind fun _ => extends_pure _
  | finished => exact extends_never

end

/-! ## What is written fits -/

theorem length_sendPart {w w' : VmessChunkWriter} {part b : Bytes}
    (h : sendPart crypto w part = some (b, w')) : b.length < 65538 := by
  obtain ⟨nonce, -, hlt, rfl, -⟩ := sendPart_inv h
  rw [List.length_append, show ∀ n, (Bytes.uint16BE n).length = 2 from fun _ => rfl]
  omega

theorem length_sendChunk {w : VmessChunkWriter} {chunk : Option Bytes} {b : Bytes}
    {answer : Answer} (h : sendChunk crypto w chunk = some (b, answer)) : b.length < 65538 := by
  cases chunk with
  | some part =>
      obtain ⟨⟨b', w'⟩, hpart, he⟩ := Option.map_eq_some_iff.mp h
      cases he
      exact length_sendPart hpart
  | none =>
      cases h
      exact show 2 < 65538 by decide

theorem length_encodeResponse (command : Command) :
    (encodeResponse crypto command).length = 38 := by
  rw [encodeResponse, List.length_append, VmessHeader.length_gcmSeal, VmessHeader.length_gcmSeal]
  rfl

theorem up_taken (hk : k.Roomy) : Fitting k (upCodec crypto cmdKey) := by
  intro w i b w' h
  refine hk b ?_
  cases w with
  | none => cases h
  | some w =>
      cases i with
      | chunk part =>
          obtain ⟨⟨b', w''⟩, hpart, he⟩ := Option.map_eq_some_iff.mp
            (h : (sendPart crypto w part).map _ = some (b, w'))
          cases he
          exact Nat.lt_trans (length_sendPart hpart) (by decide)
      | request command => cases h
      | finish =>
          cases h
          exact show 2 < 2 ^ 53 by decide

theorem down_taken (hk : k.Roomy) : Fitting k (downCodec crypto keys) := by
  intro answer chunk b answer' h
  refine hk b ?_
  have h : sendAnswer crypto answer chunk = some (b, answer') := h
  cases answer with
  | idle => cases h
  | ended => cases h
  | answering w => exact Nat.lt_trans (length_sendChunk h) (by decide)
  | ready command =>
      obtain ⟨⟨b', a⟩, hchunk, he⟩ := Option.map_eq_some_iff.mp h
      cases he
      have hlt : b'.length < 65538 := length_sendChunk hchunk
      rw [List.length_append, length_encodeResponse]
      change 38 + b'.length < 2 ^ 53
      omega

/-! ## Every turn is one of the plain session, or none -/

/-- The plain session with these bytes in flight. -/
def carrying (t : Tunnel crypto cmdKey keys) (content : Way → Bytes) : Tunnel crypto cmdKey keys :=
  { t with up := Pipe.carrying t.up (content .up), down := Pipe.carrying t.down (content .down) }

/-- An answer whose request has been read has begun. -/
def Begun (t : Tunnel crypto cmdKey keys) : Prop :=
  t.down.sender = Answer.idle → ∀ command rest, t.up.received ≠ .request command :: rest

/-- The ends, with what the carrier holds in flight between them. -/
def Carries (s : Session crypto cmdKey keys k) (t : Tunnel crypto cmdKey keys) : Prop :=
  ∃ content, k.Holds s.link content ∧ t = carrying s.ends content

theorem Begun.begin_eq {t : Tunnel crypto cmdKey keys} (h : Begun t) : t.begin = t := by
  unfold Tunnel.begin
  split
  · next command rest hidle hr => exact absurd hr (h hidle command rest)
  · rfl

theorem begun_begin (t : Tunnel crypto cmdKey keys) : Begun t.begin := by
  intro hidle command rest hr
  unfold Tunnel.begin at hidle hr
  split at hidle
  · cases hidle
  · next hne =>
      refine hne command rest hidle ?_
      split at hr
      · exact hr
      · exact hr

theorem Begun.step {t : Tunnel crypto cmdKey keys} (h : Begun t) (turn : VmessSession.Turn) :
    Begun (t.step turn) := by
  have hsame : ∀ {t' : Tunnel crypto cmdKey keys}, t'.up.received = t.up.received →
      (t'.down.sender = Answer.idle → t.down.sender = Answer.idle) → Begun t' :=
    fun hr hs hidle command rest => hr ▸ h (hs hidle) command rest
  cases turn with
  | write data =>
      rw [Tunnel.step]
      split
      · exact h
      · exact hsame (t.up.sendAll_received _) id
  | close => exact hsame (t.up.send_receiver .finish).2.1 id
  | serve => exact begun_begin _
  | answer data =>
      rw [Tunnel.step]
      split
      · refine hsame rfl fun hidle => ?_
        rw [← sendAll_idle t.down _ hidle]
        exact hidle
      · exact h
  | finish =>
      refine hsame rfl fun hidle => ?_
      rw [← send_idle t.down none hidle]
      exact hidle
  | read => exact hsame rfl fun hidle => t.down.receive_sender.1.symm.trans hidle

/-- Answering begins with what the ends know, whatever is in flight. -/
theorem over_begin (t : Tunnel crypto cmdKey keys) (content : Way → Bytes) :
    carrying t.begin content = (carrying t content).begin := by
  unfold Tunnel.begin carrying
  simp only [Pipe.carrying]
  split
  · rfl
  · rfl

/-- A turn of the ends is the same turn of the plain session, or waits; a move of the carrier is
none. -/
theorem Carries.step (hk : k.Roomy) {s : Session crypto cmdKey keys k}
    {t : Tunnel crypto cmdKey keys} (h : Carries s t) (hb : Begun t) (turn : Turn k) :
    ∃ turns : List VmessSession.Turn, Carries (s.step turn) (t.run turns) := by
  obtain ⟨content, hc, rfl⟩ := h
  have hdown : ∀ flight, Function.update content .up flight .down = content .down :=
    fun flight => Function.update_of_ne (by decide) _ _
  have hup : ∀ flight, Function.update content .down flight .up = content .up :=
    fun flight => Function.update_of_ne (by decide) _ _
  cases turn with
  | ends turn =>
      cases turn with
      | write data =>
          by_cases hclosed : s.ends.closed = true
          · refine ⟨[], content, ?_, ?_⟩
            · simp only [Session.step, if_pos hclosed]
              exact hc
            · simp only [Session.step, if_pos hclosed]
              rfl
          · obtain ⟨flight, hholds, hsend⟩ := sendAll_carrying (p := s.ends.up) (up_taken hk) hc
              ((parts data).map .chunk)
            have hclosed' : ¬ (carrying s.ends content).closed = true := hclosed
            refine ⟨[.write data], Function.update content .up flight, ?_, ?_⟩
            · simp only [Session.step, if_neg hclosed]
              exact hholds
            · change (carrying s.ends content).step (.write data) = _
              simp only [Tunnel.step, Session.step, if_neg hclosed, if_neg hclosed']
              simp only [carrying, Function.update_self, hdown, hsend]
      | close =>
          obtain ⟨flight, hholds, hsend⟩ :=
            send_carrying (p := s.ends.up) (up_taken hk) hc .finish
          refine ⟨[.close], _, hholds, ?_⟩
          change (carrying s.ends content).step .close = _
          simp only [carrying, Tunnel.step, Session.step, Function.update_self, hdown, hsend]
      | serve =>
          rcases receive_carrying (w := .up) (up_local crypto cmdKey) (p := s.ends.up) hc with
            hwait | ⟨flight, hholds, hreceive⟩
          · refine ⟨[], content, ?_, ?_⟩
            · simp only [Session.step, hwait]
              exact hc
            · have hbegun : s.ends.begin = s.ends := Begun.begin_eq hb
              simp only [Session.step, hwait, hbegun]
              rfl
          · refine ⟨[.serve], _, hholds, ?_⟩
            change (carrying s.ends content).step .serve = _
            simp only [Session.step, over_begin]
            simp only [carrying, Tunnel.step, Function.update_self, hdown, hreceive]
      | answer data =>
          by_cases ho : Answer.open s.ends.down.sender = true
          · obtain ⟨flight, hholds, hsend⟩ := sendAll_carrying (p := s.ends.down) (down_taken hk) hc
              ((parts data).map some)
            have ho' : Answer.open (carrying s.ends content).down.sender = true := ho
            refine ⟨[.answer data], Function.update content .down flight, ?_, ?_⟩
            · simp only [Session.step, if_pos ho]
              exact hholds
            · change (carrying s.ends content).step (.answer data) = _
              simp only [Tunnel.step, Session.step, if_pos ho, if_pos ho']
              simp only [carrying, Function.update_self, hup, hsend]
          · refine ⟨[], content, ?_, ?_⟩
            · simp only [Session.step, if_neg ho]
              exact hc
            · simp only [Session.step, if_neg ho]
              rfl
      | finish =>
          obtain ⟨flight, hholds, hsend⟩ := send_carrying (p := s.ends.down) (down_taken hk) hc none
          refine ⟨[.finish], _, hholds, ?_⟩
          change (carrying s.ends content).step .finish = _
          simp only [carrying, Tunnel.step, Session.step, Function.update_self, hup, hsend]
      | read =>
          rcases receive_carrying (w := .down) (down_local crypto keys) (p := s.ends.down) hc with
            hwait | ⟨flight, hholds, hreceive⟩
          · refine ⟨[], content, ?_, ?_⟩
            · simp only [Session.step, hwait]
              exact hc
            · simp only [Session.step, hwait]
              rfl
          · refine ⟨[.read], _, hholds, ?_⟩
            change (carrying s.ends content).step .read = _
            simp only [carrying, Tunnel.step, Session.step, Function.update_self, hup, hreceive]
  | move m => exact ⟨[], content, k.holds_move m hc, rfl⟩

/-! ## Every run -/

/-- What each side may rely on over a carrier: what it relies on in a run of the plain session that
looks the same, and that what it has not got yet arrives for its next read. -/
structure Delivers (s : Session crypto cmdKey keys k) (t : Tunnel crypto cmdKey keys)
    (command : Command) : Prop where
  carries : Carries s t
  delivers : VmessSession.Delivers t command
  upArrives : s.ends.up.received ≠ s.ends.up.sent → ∃ ms : List k.Move, ∃ message,
    ((s.run (ms.map .move)).step (.ends .serve)).ends.up.received =
      s.ends.up.received ++ [message]
  downArrives : s.ends.down.received ≠ s.ends.down.sent → ∃ ms : List k.Move, ∃ chunk,
    ((s.run (ms.map .move)).step (.ends .read)).ends.down.received =
      s.ends.down.received ++ [chunk]

theorem run_moves (s : Session crypto cmdKey keys k) (ms : List k.Move) :
    s.run (ms.map .move) = { s with link := ms.foldl k.move s.link } := by
  induction ms generalizing s with
  | nil => rfl
  | cons m rest ih => exact ih _

end DshClashProxy.Core.VmessCarried
