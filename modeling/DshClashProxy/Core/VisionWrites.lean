import DshClashProxy.Core.VisionFrames

/-!
# What the Vision connection writes

A write is padded into frames until one of them ends the padding; the rest goes out as it is, on
the inner connection after an End frame and on the raw one after a Direct frame. Which frames
those are depends on what the TLS filter has seen, and reads move the filter at any time. Whatever
they make of it, what is sent decodes to what was written.
-/
namespace DshClashProxy.Core.VisionWrites

open Js Vision
open VisionFrames (Frame headerLength)

/-! ## The fields that reads share -/

/-- The fields of the TLS filter. -/
structure Detection where
  isTLS : Bool
  numberOfPacketToFilter : Int
  isTLS12orAbove : Bool
  remainingServerHello : Int
  cipher : Nat
  enableXTLS : Bool

def detection (c : VisionConn) : Detection where
  isTLS := c.isTLS
  numberOfPacketToFilter := c.numberOfPacketToFilter
  isTLS12orAbove := c.isTLS12orAbove
  remainingServerHello := c.remainingServerHello
  cipher := c.cipher
  enableXTLS := c.enableXTLS

/-- What a read makes of the filter while a write is under way. -/
def beside (read : Detection → Detection) (c : VisionConn) : VisionConn :=
  let d := read (detection c)
  { c with
    isTLS := d.isTLS
    numberOfPacketToFilter := d.numberOfPacketToFilter
    isTLS12orAbove := d.isTLS12orAbove
    remainingServerHello := d.remainingServerHello
    cipher := d.cipher
    enableXTLS := d.enableXTLS }

@[simp] theorem beside_id (c : VisionConn) : beside id c = c := rfl

/-- The loop of `Write` with reads beside it: the filter may change before each buffer is looked
at. -/
def padAllBeside (random : Nat → Nat) (reads : Nat → Detection → Detection) :
    VisionConn → Nat → List Bytes → List Bytes × Nat × VisionConn
  | c, _, [] => ([], 0, c)
  | c, i, buffer :: rest =>
      let c := beside (reads i) c
      if c.isTLS ∧ 6 < buffer.length ∧ tlsApplicationDataStart = buffer.take 3 then
        if c.enableXTLS then
          let (out, c) := VisionConn.padding { c with directWrite := true, isPadding := false }
            buffer commandPaddingDirect (random i)
          (out :: rest, i, c)
        else
          let (out, c) := VisionConn.padding { c with isPadding := false } buffer
            commandPaddingEnd (random i)
          (out :: rest, 0, c)
      else if !c.isTLS12orAbove ∧ c.numberOfPacketToFilter ≤ 1 then
        let (out, c) := VisionConn.padding { c with isPadding := false } buffer
          commandPaddingEnd (random i)
        (out :: rest, 0, c)
      else
        let (out, c) := c.padding buffer commandPaddingContinue (random i)
        let (buffers, specIndex, c) := padAllBeside random reads c (i + 1) rest
        (out :: buffers, specIndex, c)

/-- Without reads the loop is that of `Write`. -/
theorem padAllBeside_id (random : Nat → Nat) (c : VisionConn) (i : Nat) (buffers : List Bytes) :
    padAllBeside random (fun _ => id) c i buffers = c.padAll random i buffers := by
  induction buffers generalizing c i with
  | nil => rfl
  | cons buffer rest ih =>
      simp only [padAllBeside, VisionConn.padAll, beside_id, ih]
      rfl

/-- A call of `Write`: its slice, its random numbers, and what reads make of the filter before the
call and before each buffer. -/
structure Call where
  p : Slice
  random : Nat → Nat
  before : Detection → Detection := id
  reads : Nat → Detection → Detection := fun _ => id

/-- What a call returns and sends. -/
structure Written where
  n : Nat
  sent : List (Wire × Bytes)

/-- The part of `Write` behind the filter, where no write to a connection fails; `accepts` is what
such a write returns. -/
def deliver (accepts : Bytes → Nat) (call : Call) (c : VisionConn) : VisionConn × Written :=
  if c.isPadding then
    let inputLen := call.p.bytes.length
    let (buffers, specIndex, c) :=
      padAllBeside call.random call.reads c 0 (reshapeBuffer call.p.bytes)
    if c.directWrite then
      let front := buffers.take (specIndex + 1)
      let back := buffers.drop (specIndex + 1)
      ({ c with conn := .raw }, ⟨inputLen, front.map (c.conn, ·) ++ back.map (Wire.raw, ·)⟩)
    else (c, ⟨inputLen, buffers.map (c.conn, ·)⟩)
  else (c, ⟨accepts call.p.bytes, [(if c.directWrite then .raw else c.conn, call.p.bytes)]⟩)

/-- The filter at the start of `Write`. None is a panic. -/
def filtered (c : VisionConn) (p : Slice) : Option VisionConn :=
  if 0 < c.numberOfPacketToFilter then c.filterTLS p else some c

/-- A call of `Write` with reads beside it. -/
def writeBeside (accepts : Bytes → Nat) (c : VisionConn) (call : Call) :
    Option (VisionConn × Written) :=
  (filtered (beside call.before c) call.p).map (deliver accepts call)

/-- Without reads beside it the call is `Write`. -/
theorem writeBeside_id (accepts : Bytes → Nat) (c : VisionConn) (p : Slice)
    (random : Nat → Nat) :
    (writeBeside accepts c { p, random }).map (fun r => (r.1, r.2.sent)) =
      c.write { p, random } := by
  have hfilter : (if 0 < c.numberOfPacketToFilter then c.filterTLS p else some c) = filtered c p :=
    rfl
  unfold writeBeside VisionConn.write
  change ((filtered c p).map _).map _ = _
  rw [hfilter]
  cases filtered c p with
  | none => rfl
  | some c =>
      simp only [Option.map_some, deliver, padAllBeside_id]
      by_cases hp : c.isPadding = true
      · by_cases hd : (c.padAll random 0 (reshapeBuffer p.bytes)).2.2.directWrite = true
        · simp [hp, hd, Input.passes, Input.delivered]
        · simp [hp, hd, Input.delivered]
      · simp [hp, Input.delivered]

/-- A run of calls, and what each of them returned and sent. -/
def run (accepts : Bytes → Nat) (c : VisionConn) : List Call → Option (List Written)
  | [] => some []
  | call :: rest =>
      match writeBeside accepts c call with
      | none => none
      | some (c, w) => (run accepts c rest).map (w :: ·)

/-- What went to a connection. -/
def on (wire : Wire) (sent : List (Wire × Bytes)) : Bytes :=
  (sent.filter (·.1 = wire)).flatMap Prod.snd

/-! ## Decoding -/

/-- How the frames of a stream end. -/
inductive Ending where
  /-- No frame has ended them yet. -/
  | unfinished
  | ended (tail : Bytes)
  | direct (tail : Bytes)

/-- The contents of the frames, up to and including the first End or Direct frame. None is a
stream that is cut inside a frame or has an unknown command. -/
def decodeFrames (b : Bytes) : Option (Bytes × Ending) :=
  if b = [] then some ([], .unfinished)
  else if b.length < 5 then none
  else
    let content := byteAt b 1 * 256 + byteAt b 2
    let padding := byteAt b 3 * 256 + byteAt b 4
    let body := b.drop 5
    let tail := body.drop (content + padding)
    if body.length < content + padding then none
    else if b.getD 0 0 = commandPaddingEnd then some (body.take content, .ended tail)
    else if b.getD 0 0 = commandPaddingDirect then some (body.take content, .direct tail)
    else if b.getD 0 0 = commandPaddingContinue then
      (decodeFrames tail).map fun r => (body.take content ++ r.1, r.2)
    else none
termination_by b.length
decreasing_by
  have := List.length_pos_iff.mpr ‹¬b = []›
  simp only [List.length_drop]
  omega

/-- What a peer reads from the two connections: the id and the frames from the inner one, then
what follows an End frame there, or the raw connection after a Direct frame. -/
def decode (uuid : UUID) (inner raw : Bytes) : Option Bytes :=
  if inner = [] then if raw = [] then some [] else none
  else if inner.take 16 = uuid.val then
    match decodeFrames (inner.drop 16) with
    | some (contents, .unfinished) => if raw = [] then some contents else none
    | some (contents, .ended tail) => if raw = [] then some (contents ++ tail) else none
    | some (contents, .direct tail) => if tail = [] then some (contents ++ raw) else none
    | none => none
  else none

theorem decodeFrames_nil : decodeFrames [] = some ([], .unfinished) := by
  rw [decodeFrames, if_pos rfl]

/-- A frame in front of a stream. -/
theorem decodeFrames_frame (f : Frame) (command : UInt8) (tail : Bytes) :
    decodeFrames (f.encode command ++ tail) =
      if command = commandPaddingEnd then some (f.content, .ended tail)
      else if command = commandPaddingDirect then some (f.content, .direct tail)
      else if command = commandPaddingContinue then
        (decodeFrames tail).map fun r => (f.content ++ r.1, r.2)
      else none := by
  have hbody : f.encode command ++ tail =
      f.header command ++ (f.content ++ (f.padding ++ tail)) := by
    simp only [Frame.encode, Frame.header, List.append_assoc]
  have hne : f.header command ++ (f.content ++ (f.padding ++ tail)) ≠ [] :=
    List.cons_ne_nil _ _
  have hlong : ¬ (f.header command ++ (f.content ++ (f.padding ++ tail))).length < 5 := by
    simp [Frame.header, Bytes.uint16BE]
  have hcontent : byteAt (f.header command ++ (f.content ++ (f.padding ++ tail))) 1 * 256 +
      byteAt (f.header command ++ (f.content ++ (f.padding ++ tail))) 2 = f.content.length :=
    headerLength f.content_le
  have hpadding : byteAt (f.header command ++ (f.content ++ (f.padding ++ tail))) 3 * 256 +
      byteAt (f.header command ++ (f.content ++ (f.padding ++ tail))) 4 = f.padding.length :=
    headerLength f.padding_le
  have hdrop : (f.header command ++ (f.content ++ (f.padding ++ tail))).drop 5 =
      f.content ++ (f.padding ++ tail) := rfl
  have hcommand : (f.header command ++ (f.content ++ (f.padding ++ tail))).getD 0 0 = command :=
    rfl
  have htail : (f.content ++ (f.padding ++ tail)).drop (f.content.length + f.padding.length) =
      tail := by
    rw [← List.append_assoc]
    exact List.drop_left' List.length_append
  have hwhole : ¬ (f.content ++ (f.padding ++ tail)).length <
      f.content.length + f.padding.length := by
    simp only [List.length_append]
    omega
  rw [hbody, decodeFrames, if_neg hne, if_neg hlong]
  simp only [hcontent, hpadding, hdrop, hcommand, htail, if_neg hwhole, List.take_left]

/-- What is decoded of Continue frames and what follows them. -/
theorem decodeFrames_continued (frames : List Frame) {tail contents : Bytes} {ending : Ending}
    (h : decodeFrames tail = some (contents, ending)) :
    decodeFrames (frames.flatMap (Frame.encode · commandPaddingContinue) ++ tail) =
      some (frames.flatMap Frame.content ++ contents, ending) := by
  induction frames with
  | nil => exact h
  | cons f frames ih =>
      rw [List.flatMap_cons, List.append_assoc, decodeFrames_frame, if_neg (by decide),
        if_neg (by decide), if_pos rfl, ih, List.flatMap_cons, List.append_assoc]
      rfl

/-! ## What has been sent -/

/-- The id and Continue frames. -/
def opening (uuid : UUID) (frames : List Frame) : Bytes :=
  uuid.val ++ frames.flatMap (Frame.encode · commandPaddingContinue)

/-- What the two connections have been sent, and what was written. -/
structure History where
  inner : Bytes
  raw : Bytes
  written : Bytes

/-- The connection and what it has sent so far fit together. -/
inductive Stage (uuid : UUID) : VisionConn → History → Prop where
  | fresh {c : VisionConn} (hid : c.userUUID = uuid) (hconn : c.conn = .inner)
      (hpadding : c.isPadding = true) (hdirect : c.directWrite = false)
      (huuid : c.writeUUID = true) : Stage uuid c ⟨[], [], []⟩
  | padding {c : VisionConn} (frames : List Frame) (hconn : c.conn = .inner)
      (hpadding : c.isPadding = true) (hdirect : c.directWrite = false)
      (huuid : c.writeUUID = false) :
      Stage uuid c ⟨opening uuid frames, [], frames.flatMap Frame.content⟩
  | ended {c : VisionConn} (frames : List Frame) (last : Frame) (tail : Bytes)
      (hconn : c.conn = .inner) (hpadding : c.isPadding = false) (hdirect : c.directWrite = false) :
      Stage uuid c ⟨opening uuid frames ++ (last.encode commandPaddingEnd ++ tail), [],
        frames.flatMap Frame.content ++ (last.content ++ tail)⟩
  | direct {c : VisionConn} (frames : List Frame) (last : Frame) (raw : Bytes)
      (hpadding : c.isPadding = false) (hdirect : c.directWrite = true) :
      Stage uuid c ⟨opening uuid frames ++ last.encode commandPaddingDirect, raw,
        frames.flatMap Frame.content ++ (last.content ++ raw)⟩

theorem opening_append (uuid : UUID) (frames added : List Frame) :
    opening uuid (frames ++ added) =
      opening uuid frames ++ added.flatMap (Frame.encode · commandPaddingContinue) := by
  rw [opening, List.flatMap_append, ← List.append_assoc]
  rfl

theorem opening_ne_nil (uuid : UUID) (b : Bytes) : uuid.val ++ b ≠ [] := by
  intro h
  have hl := congrArg List.length h
  rw [List.length_append, uuid.property] at hl
  simp at hl

/-- What has been sent decodes to what was written. -/
theorem Stage.decoded {uuid : UUID} {c : VisionConn} {h : History} (hs : Stage uuid c h) :
    decode uuid h.inner h.raw = some h.written := by
  have hframes : ∀ b contents ending, decodeFrames b = some (contents, ending) →
      ∀ raw, decode uuid (uuid.val ++ b) raw = match ending with
        | .unfinished => if raw = [] then some contents else none
        | .ended tail => if raw = [] then some (contents ++ tail) else none
        | .direct tail => if tail = [] then some (contents ++ raw) else none := by
    intro b contents ending hb raw
    rw [decode, if_neg (opening_ne_nil uuid b), List.take_left' uuid.property, if_pos rfl,
      List.drop_left' uuid.property, hb]
    cases ending <;> rfl
  cases hs with
  | fresh => rfl
  | padding frames =>
      have hdecoded := decodeFrames_continued frames decodeFrames_nil
      rw [List.append_nil, List.append_nil] at hdecoded
      exact hframes _ _ _ hdecoded []
  | ended frames last tail =>
      have hlast : decodeFrames (last.encode commandPaddingEnd ++ tail) =
          some (last.content, .ended tail) := by
        rw [decodeFrames_frame, if_pos rfl]
      have hdecoded := hframes _ _ _ (decodeFrames_continued frames hlast) []
      rw [← List.append_assoc] at hdecoded
      exact hdecoded.trans (congrArg some (List.append_assoc _ _ _))
  | direct frames last raw =>
      have hlast : decodeFrames (last.encode commandPaddingDirect ++ []) =
          some (last.content, .direct []) := by
        rw [decodeFrames_frame, if_neg (by decide), if_pos rfl]
      rw [List.append_nil] at hlast
      have hdecoded := hframes _ _ _ (decodeFrames_continued frames hlast) raw
      rw [← List.append_assoc] at hdecoded
      exact hdecoded.trans (congrArg some (List.append_assoc _ _ _))

/-! ## Padding -/

/-- The id that the next padded buffer starts with. -/
def pendingId (c : VisionConn) : Bytes := if c.writeUUID then c.userUUID.val else []

theorem pendingId_written {c : VisionConn} (h : c.writeUUID = false) : pendingId c = [] := by
  rw [pendingId, h]
  rfl

/-- A padded buffer is a frame. -/
theorem padding_eq (c : VisionConn) {buffer : Bytes} (hb : buffer.length ≤ 65535)
    (command : UInt8) (random : Nat) :
    ∃ f : Frame, f.content = buffer ∧
      c.padding buffer command random =
        (pendingId c ++ f.encode command, { c with writeUUID := false }) := by
  let paddingLen := if buffer.length < 900 ∧ c.isTLS then random % 500 + 900 - buffer.length
    else random % 256
  have hpadding : (List.replicate paddingLen (0 : UInt8)).length ≤ 65535 := by
    rw [List.length_replicate]
    simp only [paddingLen]
    split <;> omega
  refine ⟨⟨buffer, List.replicate paddingLen 0, hb, hpadding⟩, rfl, Prod.ext ?_ rfl⟩
  change pendingId c ++ (command :: Bytes.uint16BE buffer.length ++ Bytes.uint16BE paddingLen ++
    buffer ++ List.replicate paddingLen 0) = _
  simp only [Frame.encode, List.length_replicate, List.append_assoc, List.cons_append]

/-- What the loop makes of buffers from an index on: Continue frames throughout, or up to an End
or a Direct frame behind which buffers are left as they are. -/
inductive Padded (c : VisionConn) (i : Nat) (buffers : List Bytes) :
    List Bytes × Nat × VisionConn → Prop where
  | unfinished {out : List Bytes} {spec : Nat} {c' : VisionConn} (frames : List Frame)
      (hsent : out.flatten ++ pendingId c' =
        pendingId c ++ frames.flatMap (Frame.encode · commandPaddingContinue))
      (hcontent : buffers.flatten = frames.flatMap Frame.content) (hconn : c'.conn = c.conn)
      (hpadding : c'.isPadding = c.isPadding) (hdirect : c'.directWrite = c.directWrite)
      (huuid : c.writeUUID = false ∨ buffers ≠ [] → c'.writeUUID = false) :
      Padded c i buffers (out, spec, c')
  | ended {out : List Bytes} {spec : Nat} {c' : VisionConn} (frames : List Frame) (last : Frame)
      (tail : Bytes)
      (hsent : out.flatten = pendingId c ++
        (frames.flatMap (Frame.encode · commandPaddingContinue) ++
          (last.encode commandPaddingEnd ++ tail)))
      (hcontent : buffers.flatten = frames.flatMap Frame.content ++ (last.content ++ tail))
      (hconn : c'.conn = c.conn) (hpadding : c'.isPadding = false)
      (hdirect : c'.directWrite = c.directWrite) : Padded c i buffers (out, spec, c')
  | direct {front back : List Bytes} {k : Nat} {c' : VisionConn} (frames : List Frame)
      (last : Frame) (hlength : front.length = k + 1)
      (hsent : front.flatten = pendingId c ++
        (frames.flatMap (Frame.encode · commandPaddingContinue) ++
          last.encode commandPaddingDirect))
      (hcontent : buffers.flatten =
        frames.flatMap Frame.content ++ (last.content ++ back.flatten))
      (hconn : c'.conn = c.conn) (hpadding : c'.isPadding = false)
      (hdirect : c'.directWrite = true) : Padded c i buffers (front ++ back, i + k, c')

/-- A Continue frame in front. -/
theorem Padded.continued {c c1 : VisionConn} {i : Nat} {buffer out : Bytes}
    {rest : List Bytes} {f : Frame} {r : List Bytes × Nat × VisionConn}
    (h : Padded c1 (i + 1) rest r) (hout : out = pendingId c ++ f.encode commandPaddingContinue)
    (hf : f.content = buffer) (huuid : c1.writeUUID = false) (hconn : c1.conn = c.conn)
    (hpadding : c1.isPadding = c.isPadding) (hdirect : c1.directWrite = c.directWrite) :
    Padded c i (buffer :: rest) (out :: r.1, r.2.1, r.2.2) := by
  have hpending := pendingId_written huuid
  subst hout hf
  cases h with
  | @unfinished out spec c' frames hsent hcontent hc hp hd hu =>
      rw [hpending, List.nil_append] at hsent
      refine .unfinished (f :: frames) ?_ ?_ (hc.trans hconn) (hp.trans hpadding)
        (hd.trans hdirect) fun _ => hu (.inl huuid)
      · rw [List.flatten_cons, List.append_assoc, hsent, List.flatMap_cons, List.append_assoc]
      · rw [List.flatten_cons, hcontent, List.flatMap_cons]
  | ended frames last tail hsent hcontent hc hp hd =>
      rw [hpending, List.nil_append] at hsent
      refine .ended (f :: frames) last tail ?_ ?_ (hc.trans hconn) hp (hd.trans hdirect)
      · rw [List.flatten_cons, hsent]
        simp only [List.flatMap_cons, List.append_assoc]
      · rw [List.flatten_cons, hcontent]
        simp only [List.flatMap_cons, List.append_assoc]
  | @direct front back k c' frames last hlength hsent hcontent hc hp hd =>
      rw [hpending, List.nil_append] at hsent
      have hindex : i + 1 + k = i + (k + 1) := by omega
      rw [hindex]
      refine @Padded.direct _ _ _ (_ :: front) back (k + 1) c' (f :: frames) last ?_ ?_ ?_
        (hc.trans hconn) hp hd
      · rw [List.length_cons, hlength]
      · rw [List.flatten_cons, hsent]
        simp only [List.flatMap_cons, List.append_assoc]
      · rw [List.flatten_cons, hcontent]
        simp only [List.flatMap_cons, List.append_assoc]

theorem padAllBeside_padded (random : Nat → Nat) (reads : Nat → Detection → Detection)
    (c : VisionConn) (i : Nat) {buffers : List Bytes}
    (hb : ∀ buffer ∈ buffers, buffer.length ≤ 65535) :
    Padded c i buffers (padAllBeside random reads c i buffers) := by
  induction buffers generalizing c i with
  | nil =>
      refine .unfinished [] ?_ rfl rfl rfl rfl fun h => h.resolve_right (· rfl)
      rw [List.flatten_nil, List.nil_append, List.flatMap_nil, List.append_nil]
  | cons buffer rest ih =>
      obtain ⟨hbuffer, hrest⟩ := List.forall_mem_cons.mp hb
      unfold padAllBeside
      dsimp only
      split
      · split
        · obtain ⟨f, hf, hpad⟩ := padding_eq
            { beside (reads i) c with directWrite := true, isPadding := false } hbuffer
            commandPaddingDirect (random i)
          rw [hpad]
          exact @Padded.direct c i _ [_] rest 0 _ [] f rfl (List.append_nil _)
            (by rw [List.flatten_cons, hf]; rfl) rfl rfl rfl
        · obtain ⟨f, hf, hpad⟩ := padding_eq { beside (reads i) c with isPadding := false }
            hbuffer commandPaddingEnd (random i)
          rw [hpad]
          exact .ended [] f rest.flatten (List.append_assoc _ _ _)
            (by rw [List.flatten_cons, hf]; rfl) rfl rfl rfl
      · split
        · obtain ⟨f, hf, hpad⟩ := padding_eq { beside (reads i) c with isPadding := false }
            hbuffer commandPaddingEnd (random i)
          rw [hpad]
          exact .ended [] f rest.flatten (List.append_assoc _ _ _)
            (by rw [List.flatten_cons, hf]; rfl) rfl rfl rfl
        · obtain ⟨f, hf, hpad⟩ := padding_eq (beside (reads i) c) hbuffer
            commandPaddingContinue (random i)
          rw [hpad]
          exact (ih _ (i + 1) hrest).continued rfl hf rfl rfl rfl rfl

/-! ## One call -/

theorem length_of_mem_reshapeBuffer {b buffer : Bytes} (h : buffer ∈ reshapeBuffer b) :
    buffer.length ≤ b.length := by
  unfold reshapeBuffer at h
  dsimp only at h
  split at h
  · rw [List.mem_singleton.mp h]
  · rcases List.mem_cons.mp h with rfl | h
    · exact List.length_take_le' _ _
    · rw [List.mem_singleton.mp h, List.length_drop]
      exact Nat.sub_le _ _

theorem flatten_reshapeBuffer (b : Bytes) : (reshapeBuffer b).flatten = b := by
  unfold reshapeBuffer
  dsimp only
  split
  · exact List.append_nil b
  · rw [List.flatten_cons, List.flatten_singleton, List.take_append_drop]

theorem reshapeBuffer_ne_nil (b : Bytes) : reshapeBuffer b ≠ [] := by
  unfold reshapeBuffer
  dsimp only
  split <;> exact List.cons_ne_nil _ _

/-- The fields that writing turns on. -/
def writer (c : VisionConn) : UUID × Wire × Bool × Bool × Bool :=
  (c.userUUID, c.conn, c.isPadding, c.directWrite, c.writeUUID)

theorem recognize_writer {c c' : VisionConn} {p : Slice} (h : c.recognize p = some c') :
    writer c' = writer c := by
  unfold VisionConn.recognize at h
  simp only at h
  split_ifs at h
  · obtain ⟨_, _, rfl⟩ := Option.map_eq_some_iff.mp h
    rfl
  all_goals
    obtain rfl := Option.some.inj h
    rfl

theorem scan_writer (c : VisionConn) (b : Bytes) : writer (c.scan b) = writer c := by
  unfold VisionConn.scan
  simp only
  split_ifs <;> rfl

/-- The size of the buffer that `io.Copy` allocates. -/
def copyBufferSize : Nat := 32 * 1024

/-- A slice of such a buffer. -/
def Copied (p : Slice) : Prop :=
  p.bytes.length ≤ copyBufferSize ∧ copyBufferSize ≤ (p.bytes ++ p.behind).length

/-- Such a buffer has room for every session id. -/
theorem Copied.fits {p : Slice} (hp : Copied p) : ¬ Overruns p := by
  rintro ⟨-, -, -, -, hover⟩
  have hid : byteAt p.bytes 43 < 256 := UInt8.toNat_lt _
  have hroom := hp.2
  rw [copyBufferSize] at hroom
  omega

/-- The filter gets through a slice that does not overrun and leaves the writer alone. -/
theorem filtered_writer (c : VisionConn) {p : Slice}
    (hfits : 0 < c.numberOfPacketToFilter → ¬ Overruns p) :
    ∃ c', filtered c p = some c' ∧ writer c' = writer c := by
  unfold filtered
  split
  · next hpos =>
      obtain ⟨d, hd⟩ := recognize_isSome
        { c with numberOfPacketToFilter := c.numberOfPacketToFilter - 1 } (hfits hpos)
      refine ⟨d.scan p.bytes, by rw [VisionConn.filterTLS, hd]; rfl, ?_⟩
      have hw := recognize_writer hd
      exact (scan_writer d _).trans hw
  · exact ⟨c, rfl, rfl⟩

/-- It panics at one that overruns. -/
theorem filtered_overruns {c : VisionConn} {p : Slice} (hpos : 0 < c.numberOfPacketToFilter)
    (h : Overruns p) : filtered c p = none := by
  rw [filtered, if_pos hpos, VisionConn.filterTLS, recognize_overruns _ h]
  rfl

theorem Stage.of_writer {uuid : UUID} {c c' : VisionConn} {h : History} (hs : Stage uuid c h)
    (hw : writer c' = writer c) : Stage uuid c' h := by
  simp only [writer, Prod.mk.injEq] at hw
  obtain ⟨hid, hconn, hpadding, hdirect, huuid⟩ := hw
  cases hs with
  | fresh h1 h2 h3 h4 h5 =>
      exact .fresh (hid.trans h1) (hconn.trans h2) (hpadding.trans h3) (hdirect.trans h4)
        (huuid.trans h5)
  | padding frames h2 h3 h4 h5 =>
      exact .padding frames (hconn.trans h2) (hpadding.trans h3) (hdirect.trans h4)
        (huuid.trans h5)
  | ended frames last tail h2 h3 h4 =>
      exact .ended frames last tail (hconn.trans h2) (hpadding.trans h3) (hdirect.trans h4)
  | direct frames last raw h3 h4 =>
      exact .direct frames last raw (hpadding.trans h3) (hdirect.trans h4)

/-- While it pads, the connection has sent the id, or is going to, and Continue frames. -/
theorem Stage.padding_inv {uuid : UUID} {c : VisionConn} {h : History} (hs : Stage uuid c h)
    (hp : c.isPadding = true) :
    c.conn = .inner ∧ c.directWrite = false ∧ h.raw = [] ∧ ∃ frames : List Frame,
      h.inner ++ pendingId c = opening uuid frames ∧ h.written = frames.flatMap Frame.content := by
  cases hs with
  | fresh hid hconn _ hdirect huuid =>
      refine ⟨hconn, hdirect, rfl, [], ?_, rfl⟩
      rw [pendingId, huuid, if_pos rfl, hid]
      exact (List.append_nil _).symm
  | padding frames hconn _ hdirect huuid =>
      refine ⟨hconn, hdirect, rfl, frames, ?_, rfl⟩
      rw [pendingId_written huuid, List.append_nil]
  | ended frames last tail _ hpadding _ => exact absurd hp (by rw [hpadding]; decide)
  | direct frames last raw hpadding _ => exact absurd hp (by rw [hpadding]; decide)

theorem on_append (wire : Wire) (sent sent' : List (Wire × Bytes)) :
    on wire (sent ++ sent') = on wire sent ++ on wire sent' := by
  rw [on, List.filter_append, List.flatMap_append]
  rfl

theorem on_map_self (wire : Wire) (buffers : List Bytes) :
    on wire (buffers.map (wire, ·)) = buffers.flatten := by
  induction buffers with
  | nil => rfl
  | cons b rest ih =>
      rw [List.map_cons, ← List.singleton_append, on_append, ih, List.flatten_cons]
      simp [on]

theorem on_map_other {wire other : Wire} (h : other ≠ wire) (buffers : List Bytes) :
    on wire (buffers.map (other, ·)) = [] := by
  induction buffers with
  | nil => rfl
  | cons b rest ih =>
      rw [List.map_cons, ← List.singleton_append, on_append, ih]
      simp [on, h]

/-- What a call adds to what was sent and written. -/
def History.add (h : History) (sent : List (Wire × Bytes)) (p : Bytes) : History :=
  ⟨h.inner ++ on .inner sent, h.raw ++ on .raw sent, h.written ++ p⟩

/-- Padded buffers add frames behind the ones sent so far, and what comes behind the frames. -/
theorem History.add_padded {uuid : UUID} {c : VisionConn} {h : History} {frames added : List Frame}
    (hinner : h.inner ++ pendingId c = opening uuid frames) (hraw : h.raw = [])
    (hwritten : h.written = frames.flatMap Frame.content) {front : List Bytes} (back : List Bytes)
    {extra : Bytes} (data : Bytes)
    (hsent : front.flatten = pendingId c ++
      (added.flatMap (Frame.encode · commandPaddingContinue) ++ extra)) :
    h.add (front.map (Wire.inner, ·) ++ back.map (Wire.raw, ·))
        (added.flatMap Frame.content ++ data) =
      ⟨opening uuid (frames ++ added) ++ extra, back.flatten,
        (frames ++ added).flatMap Frame.content ++ data⟩ := by
  rw [History.add, on_append, on_append, on_map_self, on_map_self, on_map_other (by decide),
    on_map_other (by decide), List.append_nil, hsent, ← List.append_assoc, hinner, opening_append,
    List.append_assoc, hraw, hwritten, List.flatMap_append, List.append_assoc]
  rfl

/-- A call that pads. -/
theorem Stage.pads {uuid : UUID} {accepts : Bytes → Nat} {c : VisionConn} {h : History}
    (hs : Stage uuid c h) {call : Call} (hp : call.p.bytes.length ≤ copyBufferSize)
    (hpads : c.isPadding = true) :
    (deliver accepts call c).2.n = call.p.bytes.length ∧
      Stage uuid (deliver accepts call c).1
        (h.add (deliver accepts call c).2.sent call.p.bytes) := by
  obtain ⟨hconn, hdirect, hraw, frames, hinner, hwritten⟩ := hs.padding_inv hpads
  have hsmall : ∀ buffer ∈ reshapeBuffer call.p.bytes, buffer.length ≤ 65535 := fun buffer hm => by
    have hle := length_of_mem_reshapeBuffer hm
    rw [copyBufferSize] at hp
    omega
  have hflat := flatten_reshapeBuffer call.p.bytes
  have hpadded := padAllBeside_padded call.random call.reads c 0 hsmall
  unfold deliver
  rw [if_pos hpads]
  generalize padAllBeside call.random call.reads c 0 (reshapeBuffer call.p.bytes) = r at hpadded
  cases hpadded with
  | @unfinished out spec c' added hsent hcontent hconn' hpadding hdirect' huuid =>
      have hd : ¬ c'.directWrite = true := by rw [hdirect', hdirect]; decide
      have hc : c'.conn = .inner := hconn'.trans hconn
      have hid := huuid (.inr (reshapeBuffer_ne_nil _))
      rw [pendingId_written hid, List.append_nil, ← List.append_nil (added.flatMap _)] at hsent
      have hadd := History.add_padded hinner hraw hwritten [] [] hsent
      simp only [List.map_nil, List.append_nil, ← hcontent, hflat] at hadd
      dsimp only
      rw [if_neg hd, hc]
      refine ⟨rfl, hadd ▸ ?_⟩
      exact .padding _ hc (hpadding.trans hpads) (hdirect'.trans hdirect) hid
  | @ended out spec c' added last tail hsent hcontent hconn' hpadding hdirect' =>
      have hd : ¬ c'.directWrite = true := by rw [hdirect', hdirect]; decide
      have hc : c'.conn = .inner := hconn'.trans hconn
      have hadd := History.add_padded hinner hraw hwritten [] (last.content ++ tail) hsent
      dsimp only
      rw [if_neg hd, hc]
      refine ⟨rfl, ?_⟩
      rw [← hflat, hcontent, ← List.append_nil (out.map _)]
      exact hadd ▸ .ended _ last tail hc hpadding (hdirect'.trans hdirect)
  | @direct front back k c' added last hlength hsent hcontent hconn' hpadding hdirect' =>
      have hc : c'.conn = .inner := hconn'.trans hconn
      have htake : (front ++ back).take (0 + k + 1) = front := by
        rw [Nat.zero_add, ← hlength, List.take_left]
      have hdrop : (front ++ back).drop (0 + k + 1) = back := by
        rw [Nat.zero_add, ← hlength, List.drop_left]
      have hadd := History.add_padded hinner hraw hwritten back (last.content ++ back.flatten) hsent
      dsimp only
      rw [if_pos hdirect', htake, hdrop, hc]
      refine ⟨rfl, ?_⟩
      rw [← hflat, hcontent]
      exact hadd ▸ .direct _ last back.flatten hpadding hdirect'

/-- A call that goes out as it is. -/
theorem Stage.passes {uuid : UUID} {accepts : Bytes → Nat} (ha : ∀ b, accepts b = b.length)
    {c : VisionConn} {h : History} (hs : Stage uuid c h) {call : Call}
    (hpads : ¬ c.isPadding = true) :
    (deliver accepts call c).2.n = call.p.bytes.length ∧
      Stage uuid (deliver accepts call c).1
        (h.add (deliver accepts call c).2.sent call.p.bytes) := by
  rw [deliver, if_neg hpads]
  refine ⟨ha _, ?_⟩
  cases hs with
  | fresh _ _ hpadding _ _ => exact absurd hpadding hpads
  | padding frames _ hpadding _ _ => exact absurd hpadding hpads
  | ended frames last tail hconn hpadding hdirect =>
      have hadd : History.add ⟨opening uuid frames ++ (last.encode commandPaddingEnd ++ tail), [],
          frames.flatMap Frame.content ++ (last.content ++ tail)⟩
            [(Wire.inner, call.p.bytes)] call.p.bytes =
          ⟨opening uuid frames ++ (last.encode commandPaddingEnd ++ (tail ++ call.p.bytes)), [],
            frames.flatMap Frame.content ++ (last.content ++ (tail ++ call.p.bytes))⟩ := by
        simp [History.add, on, List.append_assoc]
      rw [hdirect, hconn]
      exact hadd ▸ .ended frames last (tail ++ call.p.bytes) hconn hpadding hdirect
  | direct frames last raw hpadding hdirect =>
      have hadd : History.add ⟨opening uuid frames ++ last.encode commandPaddingDirect, raw,
          frames.flatMap Frame.content ++ (last.content ++ raw)⟩
            [(Wire.raw, call.p.bytes)] call.p.bytes =
          ⟨opening uuid frames ++ last.encode commandPaddingDirect, raw ++ call.p.bytes,
            frames.flatMap Frame.content ++ (last.content ++ (raw ++ call.p.bytes))⟩ := by
        simp [History.add, on, List.append_assoc]
      rw [hdirect]
      exact hadd ▸ .direct frames last (raw ++ call.p.bytes) hpadding hdirect

/-- The filter of a call gets through: it is over, or the slice does not overrun. -/
def Call.Fits (call : Call) (c : VisionConn) : Prop :=
  0 < (beside call.before c).numberOfPacketToFilter → ¬ Overruns call.p

/-- A call returns the length of its slice and keeps what was sent in step with what was
written. -/
theorem Stage.call {uuid : UUID} {accepts : Bytes → Nat} (ha : ∀ b, accepts b = b.length)
    {c : VisionConn} {h : History} (hs : Stage uuid c h) {call : Call}
    (hp : call.p.bytes.length ≤ copyBufferSize) (hfits : call.Fits c) :
    ∃ c' w, writeBeside accepts c call = some (c', w) ∧ w.n = call.p.bytes.length ∧
      Stage uuid c' (h.add w.sent call.p.bytes) := by
  obtain ⟨d, hd, hw⟩ := filtered_writer (beside call.before c) hfits
  have hsd : Stage uuid d h := hs.of_writer (hw.trans rfl)
  refine ⟨(deliver accepts call d).1, (deliver accepts call d).2, ?_, ?_⟩
  · rw [writeBeside, hd]
    rfl
  · by_cases hpads : d.isPadding = true
    · exact hsd.pads hp hpads
    · exact hsd.passes ha hpads

/-! ## Runs -/

/-- At every call of a run the filter gets through. -/
def AllFit (accepts : Bytes → Nat) : VisionConn → List Call → Prop
  | _, [] => True
  | c, call :: rest =>
      call.Fits c ∧ ∀ c' w, writeBeside accepts c call = some (c', w) → AllFit accepts c' rest

theorem allFit_of_copied (accepts : Bytes → Nat) {calls : List Call}
    (hp : ∀ call ∈ calls, Copied call.p) (c : VisionConn) : AllFit accepts c calls := by
  induction calls generalizing c with
  | nil => trivial
  | cons call rest ih =>
      obtain ⟨hcall, hrest⟩ := List.forall_mem_cons.mp hp
      exact ⟨fun _ => hcall.fits, fun c' _ _ => ih hrest c'⟩

/-- A run that does not panic has been through the filter at every call. -/
theorem allFit_of_run {accepts : Bytes → Nat} {c : VisionConn} {calls : List Call}
    {ws : List Written} (h : run accepts c calls = some ws) : AllFit accepts c calls := by
  induction calls generalizing c ws with
  | nil => trivial
  | cons call rest ih =>
      refine ⟨fun hpos hover => ?_, fun c' w hwrite => ?_⟩
      · rw [run, writeBeside, filtered_overruns hpos hover] at h
        cases h
      · rw [run, hwrite] at h
        obtain ⟨_, hrest, _⟩ := Option.map_eq_some_iff.mp h
        exact ih hrest

theorem run_decoded {uuid : UUID} {accepts : Bytes → Nat} (ha : ∀ b, accepts b = b.length)
    {c : VisionConn} {h : History} (hs : Stage uuid c h) {calls : List Call}
    (hp : ∀ call ∈ calls, call.p.bytes.length ≤ copyBufferSize) (hfit : AllFit accepts c calls) :
    ∃ ws, run accepts c calls = some ws ∧
      ws.map Written.n = calls.map (·.p.bytes.length) ∧
      decode uuid (h.inner ++ on .inner (ws.flatMap Written.sent))
        (h.raw ++ on .raw (ws.flatMap Written.sent)) =
          some (h.written ++ calls.flatMap (·.p.bytes)) := by
  induction calls generalizing c h with
  | nil =>
      refine ⟨[], rfl, rfl, ?_⟩
      have hdecoded := hs.decoded
      simpa [on] using hdecoded
  | cons call rest ih =>
      obtain ⟨hcall, hrest⟩ := List.forall_mem_cons.mp hp
      obtain ⟨hfits, hlater⟩ := hfit
      obtain ⟨c', w, hwrite, hn, hs'⟩ := hs.call ha hcall hfits
      obtain ⟨ws, hrun, hns, hdecode⟩ := ih hs' hrest (hlater c' w hwrite)
      refine ⟨w :: ws, ?_, ?_, ?_⟩
      · rw [run, hwrite]
        simp only [hrun, Option.map_some]
      · rw [List.map_cons, List.map_cons, hn, hns]
      · rw [List.flatMap_cons, List.flatMap_cons, on_append, on_append, ← List.append_assoc,
          ← List.append_assoc, ← List.append_assoc]
        exact hdecode

/-- Every call of a run returns the length of its slice, and what the two connections were sent
decodes to what was written. -/
def Decodable (accepts : Bytes → Nat) (c : VisionConn) (calls : List Call) : Prop :=
  ∃ ws, run accepts c calls = some ws ∧
    ws.map Written.n = calls.map (·.p.bytes.length) ∧
    decode c.userUUID (on .inner (ws.flatMap Written.sent))
      (on .raw (ws.flatMap Written.sent)) = some (calls.flatMap (·.p.bytes))

/-- Whatever reads make of the filter before a call and before each of its buffers, the run is
decodable exactly when the filter gets through at every call. -/
theorem write_decodable_iff (uuid : UUID) (input rawIn : Bytes) {accepts : Bytes → Nat}
    (ha : ∀ b, accepts b = b.length) {calls : List Call}
    (hp : ∀ call ∈ calls, call.p.bytes.length ≤ copyBufferSize) :
    Decodable accepts (newVisionConn uuid input rawIn) calls ↔
      AllFit accepts (newVisionConn uuid input rawIn) calls := by
  constructor
  · rintro ⟨ws, hrun, -⟩
    exact allFit_of_run hrun
  · intro hfit
    exact run_decoded ha (.fresh rfl rfl rfl rfl rfl) hp hfit

/-- The buffer of `io.Copy` with these bytes in front. -/
def copied (b : Bytes) : Slice := ⟨b, List.replicate (copyBufferSize - b.length) 0⟩

theorem copied_copied {b : Bytes} (h : b.length ≤ copyBufferSize) : Copied (copied b) := by
  refine ⟨h, ?_⟩
  change _ ≤ (b ++ List.replicate (copyBufferSize - b.length) 0).length
  rw [List.length_append, List.length_replicate]
  omega

/-- A letter, and then the first application data after a read has found TLS 1.3. -/
def conversation : List Call :=
  [{ p := copied [0x41], random := fun _ => 0 },
    { p := copied [0x17, 0x03, 0x03, 0x00, 0x02, 0x42, 0x43]
      random := fun _ => 7
      before := fun d => { d with isTLS := true, enableXTLS := true } }]

/-- The first 79 bytes of a server hello of 95, in a slice with no memory behind them; the session
id has the given length. -/
def hello (idLength : UInt8) : Call where
  p := ⟨[0x16, 0x03, 0x03, 0x00, 0x5a, 0x02] ++ List.replicate 37 0 ++ [idLength] ++
    List.replicate 35 0, []⟩
  random := fun _ => 0

/-- A session id of 32 bytes ends in front of the cipher suite. -/
theorem hello_decoded :
    Decodable List.length (newVisionConn VisionFrames.sample.uuid [] [])
      (hello 32 :: conversation) := by
  refine (@write_decodable_iff VisionFrames.sample.uuid [] [] List.length (fun _ => rfl)
    (hello 32 :: conversation) fun call hcall => ?_).mpr ⟨fun _ => ?_, fun c _ _ => ?_⟩
  · rcases List.mem_cons.mp hcall with rfl | hcall
    · decide
    · rcases List.mem_pair.mp hcall with rfl | rfl <;> decide
  · rintro ⟨-, -, -, -, hover⟩
    exact absurd hover (by decide)
  · refine allFit_of_copied _ (fun call hcall => ?_) c
    rcases List.mem_pair.mp hcall with rfl | rfl
    · exact copied_copied (by decide)
    · exact copied_copied (by decide)

/-- One of 255 bytes points past the slice, and the filter panics. -/
theorem hello_overruns :
    (hello 255).p.bytes.length ≤ copyBufferSize ∧
      ¬ Decodable List.length (newVisionConn VisionFrames.sample.uuid [] []) [hello 255] := by
  refine ⟨by decide, ?_⟩
  rintro ⟨ws, hrun, -⟩
  have hnone : run List.length (newVisionConn VisionFrames.sample.uuid [] []) [hello 255] =
      none := rfl
  rw [hnone] at hrun
  cases hrun

end DshClashProxy.Core.VisionWrites
