import DshClashProxy.Core.WebSocket
import DshClashProxy.Lib.Carriers

/-!
# A WebSocket between a client and its server

The client puts every write into one masked frame. The server cuts what it sends into frames as it
likes, and puts control frames between them. The loop of `WsStream.read` takes the frames of the
server one by one: it keeps their data for `iterableSource`, and answers pings among the frames that
the client writes. Both ways the two ends get what was sent, in order, and every ping gets its pong.
-/
namespace DshClashProxy.Core.WebSocketLink

open Js Lib.ByteSource Lib.Carriers Sip004
open WebSocket (Frame Pass pass passOf readFrame pong)

/-- How a server cuts what it sends. -/
structure Framing where
  cut : Nat → Bytes → List Frame
  data : ∀ n b, ∀ f ∈ cut n b, f.opcode ≠ 0x8 ∧ f.opcode ≠ 0x9 ∧ f.opcode ≠ 0xa
  whole : ∀ n b, (cut n b).flatMap Frame.payload = b

/-- A ping or a pong. It has room for 125 bytes. -/
def Control (f : Frame) : Prop := (f.opcode = 0x9 ∨ f.opcode = 0xa) ∧ f.payload.length ≤ 125

/-- Both wires, and what each end has taken out of frames and not read. The last two fields are
history: the pings of the server, and the pongs it has got. -/
structure WsLink where
  up : Bytes := []
  down : Bytes := []
  held : Bytes := []
  pending : Bytes := []
  /-- The masks that the client has drawn. -/
  drawn : Nat := 0
  /-- The blocks that the server has sent. -/
  blocks : Nat := 0
  pinged : List Bytes := []
  ponged : List Bytes := []

inductive Move where
  /-- One turn of the loop of `WsStream.read`. -/
  | listen
  /-- The server reads a frame. -/
  | hear
  /-- The server sends a control frame. -/
  | control (f : Frame) (h : Control f)

section
variable (masks : Nat → Sized 4) (server : Framing)

/-- A close frame ends the loop. Here the server sends none while the session lasts. -/
def WsLink.listen (l : WsLink) : WsLink :=
  match onList (pass (masks l.drawn) : (Source.ofList UInt8).Reads Empty Pass) l.down with
  | some (.ok (.yielded payload), rest) => { l with down := rest, pending := l.pending ++ payload }
  | some (.ok (.answered _ pong), rest) =>
      { l with down := rest, up := l.up ++ pong, drawn := l.drawn + 1 }
  | some (.ok .skipped, rest) => { l with down := rest }
  | _ => l

def WsLink.hear (l : WsLink) : WsLink :=
  match onList (readFrame : (Source.ofList UInt8).Reads Empty (UInt8 × Bytes)) l.up with
  | some (.ok (opcode, payload), rest) =>
      if opcode = 0xa then { l with up := rest, ponged := l.ponged ++ [payload] }
      else { l with up := rest, held := l.held ++ payload }
  | _ => l

def WsLink.control (l : WsLink) (f : Frame) : WsLink :=
  { l with down := l.down ++ f.encode,
           pinged := if f.opcode = 0x9 then l.pinged ++ [f.payload] else l.pinged }

def WsLink.move (l : WsLink) : Move → WsLink
  | .listen => l.listen masks
  | .hear => l.hear
  | .control f _ => l.control f

def WsLink.ready (l : WsLink) : Way → Bytes
  | .up => l.held
  | .down => l.pending

def WsLink.push (l : WsLink) (b : Bytes) : Way → WsLink
  | .up => { l with up := l.up ++ WebSocket.write (masks l.drawn) b, drawn := l.drawn + 1 }
  | .down => { l with down := l.down ++ (server.cut l.blocks b).flatMap Frame.encode,
                      blocks := l.blocks + 1 }

def WsLink.take (l : WsLink) (n : Nat) : Way → WsLink
  | .up => { l with held := l.held.drop n }
  | .down => { l with pending := l.pending.drop n }

end

/-! ## What is on the wires -/

/-- The data of a frame. -/
def dataOf (f : Frame) : Bytes := if f.opcode = 0x9 ∨ f.opcode = 0xa then [] else f.payload

def pingOf (f : Frame) : Option Bytes := if f.opcode = 0x9 then some f.payload else none

def pongOf (f : Frame) : Option Bytes := if f.opcode = 0xa then some f.payload else none

/-- Whole frames are on both wires, whose data is still to be read, and every ping of the server
has its pong or is on its way to it. -/
structure Framed (l : WsLink) (content : Way → Bytes) (ups downs : List Frame) : Prop where
  up : l.up = ups.flatMap Frame.encode
  /-- The client sends masked data and masked pongs. -/
  client : ∀ f ∈ ups, f.maskKey.isSome = true ∧ (f.opcode = 0x2 ∨ f.opcode = 0xa)
  down : l.down = downs.flatMap Frame.encode
  server : ∀ f ∈ downs, f.opcode ≠ 0x8 ∧ (f.opcode = 0x9 → f.payload.length ≤ 125)
  upData : content .up = l.held ++ ups.flatMap dataOf
  downData : content .down = l.pending ++ downs.flatMap dataOf
  pings : l.pinged = l.ponged ++ ups.filterMap pongOf ++ downs.filterMap pingOf

/-- The pong that answers a ping, as a frame. -/
def pongFrame (pongMask : Sized 4) (ping : Bytes) (h : ping.length ≤ 125) : Frame :=
  ⟨0x8a, .short, some pongMask, ping, Nat.lt_succ_of_le h⟩

theorem encode_pongFrame (pongMask : Sized 4) {ping : Bytes} (h : ping.length ≤ 125) :
    (pongFrame pongMask ping h).encode = pong pongMask ping := rfl

theorem opcode_pongFrame (pongMask : Sized 4) {ping : Bytes} (h : ping.length ≤ 125) :
    (pongFrame pongMask ping h).opcode = 0xa := show (0x8a : UInt8) &&& 0x0f = 0xa by decide

theorem opcode_writtenFrame (maskKey : Sized 4) (payload : Bytes) (h : payload.length < 2 ^ 53) :
    (WebSocket.writtenFrame maskKey payload h).opcode = 0x2 :=
  show (0x82 : UInt8) &&& 0x0f = 0x2 by decide

section
variable {masks : Nat → Sized 4} {server : Framing} {l : WsLink} {content : Way → Bytes}
  {ups downs : List Frame}

variable (masks) in
/-- The client takes a frame off its wire, and puts a pong on the other where that is a ping. -/
theorem Framed.listen {f : Frame} (h : Framed l content ups (f :: downs)) :
    ∃ ups, Framed (l.listen masks) content ups downs := by
  have hdown : l.down = f.encode ++ downs.flatMap Frame.encode := h.down.trans List.flatMap_cons
  have hread := onList_consumes (WebSocket.consumes_pass (ε := Empty) (masks l.drawn) f)
    (downs.flatMap Frame.encode)
  obtain ⟨h8, h125⟩ := h.server f List.mem_cons_self
  have hserver : ∀ g ∈ downs, g.opcode ≠ 0x8 ∧ (g.opcode = 0x9 → g.payload.length ≤ 125) :=
    fun g hg => h.server g (List.mem_cons_of_mem _ hg)
  have hdata := h.downData
  have hpings := h.pings
  rw [List.flatMap_cons] at hdata
  rw [List.filterMap_cons] at hpings
  unfold WsLink.listen
  rw [hdown, hread, passOf, if_neg h8]
  by_cases h9 : f.opcode = 0x9
  · rw [if_pos h9]
    have hp : pongOf (pongFrame (masks l.drawn) f.payload (h125 h9)) = some f.payload :=
      if_pos (opcode_pongFrame _ _)
    have hd : dataOf (pongFrame (masks l.drawn) f.payload (h125 h9)) = [] :=
      if_pos (.inr (opcode_pongFrame _ _))
    refine ⟨ups ++ [pongFrame (masks l.drawn) f.payload (h125 h9)], ?_, ?_, rfl, hserver, ?_, ?_,
      ?_⟩
    · rw [List.flatMap_append, List.flatMap_singleton, encode_pongFrame, ← h.up]
    · intro g hg
      rcases List.mem_append.mp hg with hg | hg
      · exact h.client g hg
      · rw [List.mem_singleton.mp hg]
        exact ⟨rfl, .inr (opcode_pongFrame _ _)⟩
    · rw [List.flatMap_append, List.flatMap_singleton, hd, List.append_nil]
      exact h.upData
    · rw [dataOf, if_pos (.inl h9), List.nil_append] at hdata
      exact hdata
    · rw [pingOf, if_pos h9] at hpings
      rw [List.filterMap_append, List.filterMap_cons, hp, List.filterMap_nil]
      simpa using hpings
  · rw [if_neg h9]
    rw [pingOf, if_neg h9] at hpings
    by_cases ha : f.opcode = 0xa
    · rw [if_pos ha]
      rw [dataOf, if_pos (.inr ha), List.nil_append] at hdata
      exact ⟨ups, h.up, h.client, rfl, hserver, h.upData, hdata, hpings⟩
    · rw [if_neg ha]
      rw [dataOf, if_neg (not_or.mpr ⟨h9, ha⟩)] at hdata
      by_cases hlen : f.payload.length > 0
      · rw [if_pos hlen]
        refine ⟨ups, h.up, h.client, rfl, hserver, h.upData, ?_, hpings⟩
        rw [hdata, List.append_assoc]
      · rw [if_neg hlen]
        have hnil : f.payload = [] := List.length_eq_zero_iff.mp (Nat.eq_zero_of_not_pos hlen)
        rw [hnil, List.nil_append] at hdata
        exact ⟨ups, h.up, h.client, rfl, hserver, h.upData, hdata, hpings⟩

/-- The server takes a frame off its wire. -/
theorem Framed.hear {f : Frame} (h : Framed l content (f :: ups) downs) :
    Framed l.hear content ups downs := by
  have hup : l.up = f.encode ++ ups.flatMap Frame.encode := h.up.trans List.flatMap_cons
  have hread := onList_consumes (WebSocket.consumes_frame (ε := Empty) f)
    (ups.flatMap Frame.encode)
  have hclient : ∀ g ∈ ups, g.maskKey.isSome = true ∧ (g.opcode = 0x2 ∨ g.opcode = 0xa) :=
    fun g hg => h.client g (List.mem_cons_of_mem _ hg)
  have hdata := h.upData
  have hpings := h.pings
  rw [List.flatMap_cons] at hdata
  rw [List.filterMap_cons] at hpings
  unfold WsLink.hear
  rw [hup, hread]
  by_cases ha : f.opcode = 0xa
  · simp only [if_pos ha]
    rw [dataOf, if_pos (.inr ha), List.nil_append] at hdata
    rw [pongOf, if_pos ha] at hpings
    refine ⟨rfl, hclient, h.down, h.server, hdata, h.downData, ?_⟩
    simpa using hpings
  · simp only [if_neg ha]
    have h2 : f.opcode = 0x2 := (h.client f List.mem_cons_self).2.resolve_right ha
    have h9 : f.opcode ≠ 0x9 := by
      rw [h2]
      decide
    rw [dataOf, if_neg (not_or.mpr ⟨h9, ha⟩)] at hdata
    rw [pongOf, if_neg ha] at hpings
    refine ⟨rfl, hclient, h.down, h.server, ?_, h.downData, hpings⟩
    rw [hdata, List.append_assoc]

/-- Nothing to listen to. -/
theorem Framed.listen_waits (h : Framed l content ups []) : l.listen masks = l := by
  have hnil : l.down = [] := h.down
  unfold WsLink.listen
  rw [hnil]
  rfl

theorem Framed.hear_waits (h : Framed l content [] downs) : l.hear = l := by
  have hnil : l.up = [] := h.up
  unfold WsLink.hear
  rw [hnil]
  rfl

theorem Framed.control {f : Frame} (h : Framed l content ups downs) (hf : Control f) :
    Framed (l.control f) content ups (downs ++ [f]) := by
  obtain ⟨hop, hlen⟩ := hf
  refine ⟨h.up, h.client, ?_, ?_, h.upData, ?_, ?_⟩
  · rw [List.flatMap_append, List.flatMap_singleton, ← h.down]
    rfl
  · intro g hg
    rcases List.mem_append.mp hg with hg | hg
    · exact h.server g hg
    · rw [List.mem_singleton.mp hg]
      refine ⟨?_, fun _ => hlen⟩
      rcases hop with h9 | ha
      · rw [h9]
        decide
      · rw [ha]
        decide
  · rw [List.flatMap_append, List.flatMap_singleton, dataOf, if_pos hop, List.append_nil]
    exact h.downData
  · rw [WsLink.control, List.filterMap_append, List.filterMap_cons, pingOf]
    by_cases h9 : f.opcode = 0x9
    · simp only [if_pos h9, List.filterMap_nil]
      rw [← List.append_assoc, ← h.pings]
    · simp only [if_neg h9, List.filterMap_nil, List.append_nil]
      exact h.pings

/-- A write of the client is one frame. -/
theorem Framed.pushUp (h : Framed l content ups downs) {b : Bytes} (hb : b.length < 2 ^ 53) :
    Framed (l.push masks server b .up) (Function.update content .up (content .up ++ b))
      (ups ++ [WebSocket.writtenFrame (masks l.drawn) b hb]) downs := by
  have h2 := opcode_writtenFrame (masks l.drawn) b hb
  have hd : dataOf (WebSocket.writtenFrame (masks l.drawn) b hb) = b :=
    if_neg (by rw [h2]; decide)
  have hp : pongOf (WebSocket.writtenFrame (masks l.drawn) b hb) = none :=
    if_neg (by rw [h2]; decide)
  refine ⟨?_, ?_, h.down, h.server, ?_, ?_, ?_⟩
  · rw [List.flatMap_append, List.flatMap_singleton, WebSocket.encode_writtenFrame, ← h.up]
    rfl
  · intro g hg
    rcases List.mem_append.mp hg with hg | hg
    · exact h.client g hg
    · rw [List.mem_singleton.mp hg]
      exact ⟨rfl, .inl h2⟩
  · rw [Function.update_self, List.flatMap_append, List.flatMap_singleton, hd, h.upData,
      List.append_assoc]
    rfl
  · rw [Function.update_of_ne (by decide)]
    exact h.downData
  · rw [List.filterMap_append, List.filterMap_cons, hp, List.filterMap_nil, List.append_nil]
    exact h.pings

/-- What the server sends are the data frames that it cuts it into. -/
theorem Framed.pushDown (h : Framed l content ups downs) (b : Bytes) :
    Framed (l.push masks server b .down) (Function.update content .down (content .down ++ b))
      ups (downs ++ server.cut l.blocks b) := by
  have hcut := server.data l.blocks b
  have hd : (server.cut l.blocks b).flatMap dataOf = b := by
    refine Eq.trans ?_ (server.whole l.blocks b)
    exact List.flatMap_congr fun f hf => if_neg (not_or.mpr (hcut f hf).2)
  have hp : (server.cut l.blocks b).filterMap pingOf = [] :=
    List.filterMap_eq_nil_iff.mpr fun f hf => if_neg (hcut f hf).2.1
  refine ⟨h.up, h.client, ?_, ?_, ?_, ?_, ?_⟩
  · rw [List.flatMap_append, ← h.down]
    rfl
  · intro g hg
    rcases List.mem_append.mp hg with hg | hg
    · exact h.server g hg
    · exact ⟨(hcut g hg).1, fun h9 => absurd h9 (hcut g hg).2.1⟩
  · rw [Function.update_of_ne (by decide)]
    exact h.upData
  · rw [Function.update_self, List.flatMap_append, hd, h.downData, List.append_assoc]
    rfl
  · rw [List.filterMap_append, hp, List.append_nil]
    exact h.pings

theorem Framed.take (h : Framed l content ups downs) {w : Way} {n : Nat}
    (hn : n ≤ (l.ready w).length) :
    Framed (l.take n w) (Function.update content w ((content w).drop n)) ups downs := by
  cases w with
  | up =>
      have hn : n ≤ l.held.length := hn
      refine ⟨h.up, h.client, h.down, h.server, ?_, ?_, h.pings⟩
      · rw [Function.update_self, h.upData, List.drop_append_of_le_length hn]
        rfl
      · rw [Function.update_of_ne (by decide)]
        exact h.downData
  | down =>
      have hn : n ≤ l.pending.length := hn
      refine ⟨h.up, h.client, h.down, h.server, ?_, ?_, h.pings⟩
      · rw [Function.update_of_ne (by decide)]
        exact h.upData
      · rw [Function.update_self, h.downData, List.drop_append_of_le_length hn]
        rfl

variable (masks) in
/-- After enough turns of the loop nothing is left on the client's wire. -/
theorem Framed.listens (h : Framed l content ups downs) :
    ∃ (n : Nat) (ups' : List Frame),
      Framed ((List.replicate n Move.listen).foldl (WsLink.move masks) l) content ups' [] := by
  induction downs generalizing l ups with
  | nil => exact ⟨0, ups, h⟩
  | cons f downs ih =>
      obtain ⟨ups', hone⟩ := h.listen masks
      obtain ⟨n, ups'', hall⟩ := ih hone
      exact ⟨n + 1, ups'', hall⟩

variable (masks) in
theorem Framed.hears (h : Framed l content ups downs) :
    ∃ n : Nat,
      Framed ((List.replicate n Move.hear).foldl (WsLink.move masks) l) content [] downs := by
  induction ups generalizing l with
  | nil => exact ⟨0, h⟩
  | cons f ups ih =>
      obtain ⟨n, hall⟩ := ih h.hear
      exact ⟨n + 1, hall⟩

variable (masks) in
/-- Once both ends have read every frame, all data is out of its frames and every ping has its
pong. -/
theorem Framed.drains (h : Framed l content ups downs) :
    ∃ ms : List Move, (∀ w, content w = (ms.foldl (WsLink.move masks) l).ready w) ∧
      (ms.foldl (WsLink.move masks) l).ponged = (ms.foldl (WsLink.move masks) l).pinged := by
  obtain ⟨n, ups', hdown⟩ := h.listens masks
  obtain ⟨m, hboth⟩ := hdown.hears masks
  refine ⟨List.replicate n .listen ++ List.replicate m .hear, ?_, ?_⟩
  · rw [List.foldl_append]
    intro w
    cases w with
    | up => exact hboth.upData.trans (List.append_nil _)
    | down => exact hboth.downData.trans (List.append_nil _)
  · rw [List.foldl_append]
    have hp := hboth.pings
    simp only [List.filterMap_nil, List.append_nil] at hp
    exact hp.symm

end

/-! ## The carrier -/

/-- A WebSocket carries what is written at either end. -/
def webSocket (masks : Nat → Sized 4) (server : Framing) : Carrier UInt8 where
  State := WsLink
  Move := Move
  start := {}
  Holds l content := ∃ ups downs, Framed l content ups downs
  Fits b := b.length < 2 ^ 53
  ready w l := l.ready w
  push w l b := l.push masks server b w
  take w l n := l.take n w
  move := WsLink.move masks
  holds_start := ⟨[], [], rfl, by simp, rfl, by simp, rfl, rfl, rfl⟩
  ready_front := by
    rintro l content w ⟨ups, downs, h⟩
    cases w with
    | up => exact ⟨_, h.upData.symm⟩
    | down => exact ⟨_, h.downData.symm⟩
  holds_push := by
    rintro l content b w ⟨ups, downs, h⟩ hb
    cases w with
    | up => exact ⟨_, _, h.pushUp hb⟩
    | down => exact ⟨_, _, h.pushDown b⟩
  holds_take := by
    rintro l content n w ⟨ups, downs, h⟩ hn
    exact ⟨_, _, h.take hn⟩
  holds_move := by
    rintro l content m ⟨ups, downs, h⟩
    cases m with
    | listen =>
        cases downs with
        | nil => exact ⟨ups, [], by rw [WsLink.move, h.listen_waits]; exact h⟩
        | cons f downs =>
            obtain ⟨ups', h'⟩ := h.listen masks
            exact ⟨ups', downs, h'⟩
    | hear =>
        cases ups with
        | nil => exact ⟨[], downs, by rw [WsLink.move, h.hear_waits]; exact h⟩
        | cons f ups => exact ⟨ups, downs, h.hear⟩
    | control f hf => exact ⟨_, _, h.control hf⟩
  arrives := by
    rintro l content ⟨ups, downs, h⟩
    obtain ⟨ms, hready, -⟩ := h.drains masks
    exact ⟨ms, fun w => (hready w).symm⟩

theorem roomy_webSocket (masks : Nat → Sized 4) (server : Framing) :
    (webSocket masks server).Roomy := fun _ hb => hb

/-- A server that puts every byte into a frame of its own. -/
def byteFrames : Framing where
  cut _ b := b.map fun x => ⟨0x82, .short, none, [x], show 1 < 126 by decide⟩
  data := by
    intro _ b f hf
    obtain ⟨x, -, rfl⟩ := List.mem_map.mp hf
    exact show (0x82 : UInt8) &&& 0x0f ≠ 0x8 ∧ (0x82 : UInt8) &&& 0x0f ≠ 0x9 ∧
      (0x82 : UInt8) &&& 0x0f ≠ 0xa by decide
  whole := by
    intro _ b
    rw [List.flatMap_map]
    exact List.flatMap_singleton' b

/-- What both ends may rely on: each has read the front of what the other wrote; what the client
has on its wire are masked frames; the server has got pongs for its first pings, in order; and once
every frame has been read, all of this is complete. -/
structure Duplex {masks : Nat → Sized 4} {server : Framing}
    (t : Traffic (webSocket masks server)) : Prop where
  front : ∀ w, t.read w <+: t.written w
  masked : ∃ ups : List Frame, WsLink.up t.link = ups.flatMap Frame.encode ∧
    ∀ f ∈ ups, f.maskKey.isSome = true
  answered : WsLink.ponged t.link <+: WsLink.pinged t.link
  whole : ∃ ms : List Move, ∃ l : WsLink, l = ms.foldl (WsLink.move masks) t.link ∧
    (∀ w, t.written w = t.read w ++ l.ready w) ∧ l.ponged = l.pinged

theorem Framed.duplex {masks : Nat → Sized 4} {server : Framing}
    {t : Traffic (webSocket masks server)} {content : Way → Bytes} {ups downs : List Frame}
    (h : Framed t.link content ups downs) (hsame : ∀ w, t.written w = t.read w ++ content w) :
    Duplex t := by
  refine ⟨fun w => ⟨content w, (hsame w).symm⟩, ⟨ups, h.up, fun f hf => (h.client f hf).1⟩, ?_, ?_⟩
  · have hp := h.pings
    rw [List.append_assoc] at hp
    exact ⟨_, hp.symm⟩
  · obtain ⟨ms, hready, hpongs⟩ := h.drains masks
    exact ⟨ms, _, rfl, fun w => (hsame w).trans (congrArg _ (hready w)), hpongs⟩

/-- However the writes, the reads, the frames and the control frames of a WebSocket interleave, its
two ends are joined by a stream each way, and every ping gets its pong. -/
theorem run_duplex (masks : Nat → Sized 4) (server : Framing)
    (ops : List (Op (webSocket masks server))) :
    Duplex (Traffic.run ({} : Traffic (webSocket masks server)) ops) := by
  obtain ⟨content, ⟨ups, downs, h⟩, hsame⟩ := Traffic.run_conserves Traffic.conserves_start ops
  exact h.duplex hsame

end DshClashProxy.Core.WebSocketLink
