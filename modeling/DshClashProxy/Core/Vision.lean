import DshClashProxy.Js.Buffer

/-!
# The Vision connection

`visionConn` of the native sidecar pads what it writes and strips the padding from what it
reads, until either side switches to the raw connection under TLS. A read hands out slices
of the caller's buffer, so a slice carries the memory behind it up to its capacity.
-/
namespace DshClashProxy.Core.Vision

open Js

/-- A Go slice: its bytes, and what its memory holds behind them up to its capacity. -/
structure Slice where
  bytes : Bytes
  behind : Bytes := []

def xrayChunkSize : Nat := 8192

def tls13SupportedVersions : Bytes := [0x00, 0x2b, 0x00, 0x02, 0x03, 0x04]

def tlsClientHandShakeStart : Bytes := [0x16, 0x03]

def tlsServerHandShakeStart : Bytes := [0x16, 0x03, 0x03]

def tlsApplicationDataStart : Bytes := [0x17, 0x03, 0x03]

def commandPaddingContinue : UInt8 := 0

def commandPaddingEnd : UInt8 := 1

def commandPaddingDirect : UInt8 := 2

/-- The suites of `tls13CipherSuiteDic` other than `TLS_AES_128_CCM_8_SHA256`. -/
def directSuites : List Nat := [0x1301, 0x1302, 0x1303, 0x1304]

inductive Wire where
  /-- The vless connection inside TLS. -/
  | inner
  /-- The TCP connection under TLS. -/
  | raw
  deriving DecidableEq

abbrev UUID := {b : Bytes // b.length = 16}

structure VisionConn where
  userUUID : UUID
  /-- The embedded connection. -/
  conn : Wire := .inner
  /-- What the TLS layer has decrypted but not handed out when the reader goes direct. -/
  input : Bytes := []
  /-- What the TLS layer has received but not decrypted then. -/
  rawIn : Bytes := []
  isTLS : Bool := false
  numberOfPacketToFilter : Int := 8
  isTLS12orAbove : Bool := false
  remainingServerHello : Int := -1
  cipher : Nat := 0
  enableXTLS : Bool := false
  isPadding : Bool := true
  directWrite : Bool := false
  writeUUID : Bool := true
  withinPaddingBuffers : Bool := true
  remainingContent : Int := -1
  remainingPadding : Int := -1
  currentCommand : UInt8 := commandPaddingContinue
  directRead : Bool := false
  /-- The parts that the multi-reader has left. -/
  remainingReader : Option (List Bytes) := none

def newVisionConn (uuid : UUID) (input rawIn : Bytes) : VisionConn :=
  { userUUID := uuid, input, rawIn }

/-! ## The TLS filter -/

/-- The byte at an index that is within the slice. -/
def byteAt (b : Bytes) (i : Nat) : Nat := (b.getD i 0).toNat

/-- The part of `filterTLS` that recognizes a hello. None is a panic: the session id points
past the capacity of the slice. -/
def VisionConn.recognize (c : VisionConn) (buffer : Slice) : Option VisionConn :=
  let b := buffer.bytes
  if 6 < b.length then
    if b.take 3 = tlsServerHandShakeStart then
      if byteAt b 5 = 2 then
        let remaining : Nat := byteAt b 3 * 256 + byteAt b 4 + 5
        let c := { c with isTLS := true, isTLS12orAbove := true,
                          remainingServerHello := remaining }
        if 79 ≤ b.length ∧ 79 ≤ remaining then
          (Bytes.readUInt16BE (b ++ buffer.behind) (43 + byteAt b 43 + 1)).map fun cipher =>
            { c with cipher }
        else some c
      else some { c with isTLS := true }
    else if b.take 2 = tlsClientHandShakeStart ∧ byteAt b 5 = 1 then some { c with isTLS := true }
    else some c
  else some c

/-- The part of `filterTLS` that looks for TLS 1.3 in what is left of the server hello. -/
def VisionConn.scan (c : VisionConn) (b : Bytes) : VisionConn :=
  if 0 < c.remainingServerHello then
    let stop := min c.remainingServerHello.toNat b.length
    let c := { c with remainingServerHello := c.remainingServerHello - stop }
    if (Bytes.indexOf tls13SupportedVersions (b.take stop)).isSome then
      { c with enableXTLS := c.enableXTLS || directSuites.contains c.cipher,
               numberOfPacketToFilter := 0 }
    else if c.remainingServerHello = 0 then { c with numberOfPacketToFilter := 0 }
    else c
  else c

def VisionConn.filterTLS (c : VisionConn) (buffer : Slice) : Option VisionConn :=
  let c := { c with numberOfPacketToFilter := c.numberOfPacketToFilter - 1 }
  (c.recognize buffer).map fun c => c.scan buffer.bytes

/-- The filter over all buffers of a read. -/
def VisionConn.filterAll (c : VisionConn) (buffers : List Slice) : Option VisionConn :=
  if 0 < c.numberOfPacketToFilter then buffers.foldlM VisionConn.filterTLS c else some c

/-! ## Reading -/

/-- The loop of `unPadding` over what is left of the buffer. -/
def VisionConn.unPaddingLoop (c : VisionConn) (behind : Bytes) (b : Bytes) :
    List Slice × VisionConn :=
  if b = [] then ([], c)
  else if c.remainingContent ≤ 0 ∧ c.remainingPadding ≤ 0 then
    if c.currentCommand = commandPaddingEnd then ([⟨b, behind⟩], c)
    else if b.length < 5 then ([], c)
    else
      VisionConn.unPaddingLoop
        { c with currentCommand := b.getD 0 0,
                 remainingContent := ↑(byteAt b 1 * 256 + byteAt b 2),
                 remainingPadding := ↑(byteAt b 3 * 256 + byteAt b 4) } behind (b.drop 5)
  else if 0 < c.remainingContent then
    let stop := min c.remainingContent.toNat b.length
    let (buffers, c) := VisionConn.unPaddingLoop
      { c with remainingContent := c.remainingContent - stop } behind (b.drop stop)
    (⟨b.take stop, b.drop stop ++ behind⟩ :: buffers, c)
  else
    let stop := min c.remainingPadding.toNat b.length
    VisionConn.unPaddingLoop { c with remainingPadding := c.remainingPadding - stop } behind
      (b.drop stop)
termination_by b.length
decreasing_by
  all_goals
    have := List.length_pos_iff.mpr ‹¬b = []›
    rw [List.length_drop]
    omega

/-- No frame is being read. -/
def VisionConn.frameless (c : VisionConn) : Bool :=
  c.remainingContent = -1 && c.remainingPadding = -1

/-- The buffer starts a padded stream. -/
def VisionConn.announced (c : VisionConn) (b : Bytes) : Bool :=
  c.frameless && 21 ≤ b.length && b.take 16 = c.userUUID.val

def VisionConn.unPadding (c : VisionConn) (buffer : Slice) : List Slice × VisionConn :=
  if c.announced buffer.bytes then
    VisionConn.unPaddingLoop
      { c with remainingContent := 0, remainingPadding := 0, currentCommand := 0 } buffer.behind
      (buffer.bytes.drop 16)
  else if c.frameless then ([buffer], c)
  else c.unPaddingLoop buffer.behind buffer.bytes

/-- What `io.ReadAll` returns, unless it is empty; its slices have room for 512 bytes. -/
def readAll (b : Bytes) : List Slice :=
  if b = [] then [] else [⟨b, List.replicate (512 - b.length) 0⟩]

/-- What `Read` makes of the flags after `unPadding`. None is an unknown command. -/
def VisionConn.settle (c : VisionConn) (buffers : List Slice) :
    Option (List Slice) × VisionConn :=
  if c.remainingContent = 0 ∧ c.remainingPadding = 0 then
    if c.currentCommand = commandPaddingEnd then
      (some buffers, { c with withinPaddingBuffers := false, remainingContent := -1,
                              remainingPadding := -1 })
    else if c.currentCommand = commandPaddingDirect then
      (some (buffers ++ readAll c.input ++ readAll c.rawIn),
        { c with withinPaddingBuffers := false, directRead := true, input := [], rawIn := [] })
    else if c.currentCommand = commandPaddingContinue then
      (some buffers, { c with withinPaddingBuffers := true })
    else (none, c)
  else if 0 < c.remainingContent ∨ 0 < c.remainingPadding then
    (some buffers, { c with withinPaddingBuffers := true })
  else (some buffers, { c with withinPaddingBuffers := false })

inductive Result where
  | bytes (b : Bytes)
  | eof
  | unknownCommand (command : UInt8)
  | panic
  deriving DecidableEq

/-- Unpad and filter a buffer. Without a result its content waits in the multi-reader. -/
def VisionConn.feed (c : VisionConn) (buffer : Slice) : Option Result × VisionConn :=
  let (buffers, c) := c.unPadding buffer
  match c.settle buffers with
  | (none, c) => (some (.unknownCommand c.currentCommand), c)
  | (some buffers, c) =>
      match c.filterAll buffers with
      | none => (some .panic, c)
      | some c => (none, { c with remainingReader := some (buffers.map Slice.bytes) })

/-- What the multi-reader yields for a buffer of the given size, if anything. -/
def VisionConn.drain (c : VisionConn) (size : Nat) : Option Bytes × VisionConn :=
  match c.remainingReader with
  | none => (none, c)
  | some parts =>
      match parts.dropWhile (· = []) with
      | [] => (none, { c with remainingReader := none })
      | part :: rest =>
          if size = 0 then (none, { c with remainingReader := some (part :: rest) })
          else (some (part.take size),
            { c with remainingReader := some (part.drop size :: rest) })

/-- A non-empty piece of a stream. -/
abbrev Chunk := {b : Bytes // b ≠ []}

/-- What the two connections are going to bring. -/
structure Network where
  inner : List Chunk := []
  raw : List Chunk := []

/-- What a buffer does not take of the first chunk stays in front. -/
def leave (b : Bytes) (rest : List Chunk) : List Chunk :=
  if h : b = [] then rest else ⟨b, h⟩ :: rest

/-- One read of a connection; none at its end. -/
def receive (chunks : List Chunk) (size : Nat) : Option (Bytes × List Chunk) :=
  match chunks with
  | [] => none
  | chunk :: rest => some (chunk.val.take size, leave (chunk.val.drop size) rest)

def Network.receive (n : Network) (wire : Wire) (size : Nat) : Option (Bytes × Network) :=
  match wire with
  | .inner => (Vision.receive n.inner size).map fun r => (r.1, { n with inner := r.2 })
  | .raw => (Vision.receive n.raw size).map fun r => (r.1, { n with raw := r.2 })

/-- The number of bytes that are still to come. -/
def Network.left (n : Network) : Nat :=
  (n.inner.flatMap Subtype.val).length + (n.raw.flatMap Subtype.val).length

/-- The buffer of a caller: what it holds, and the memory behind it. -/
structure Target where
  p : Bytes
  spare : Bytes := []

/-- History: a read of the embedded connection, the state before it and what it brought. -/
structure Pull where
  before : VisionConn
  target : Target
  buffer : Slice

structure Outcome where
  result : Result
  pulls : List Pull
  after : VisionConn
  network : Network

theorem flatMap_leave (b : Bytes) (rest : List Chunk) :
    (leave b rest).flatMap Subtype.val = b ++ rest.flatMap Subtype.val := by
  unfold leave
  split
  · next h => rw [h, List.nil_append]
  · rw [List.flatMap_cons]

/-- A read takes a non-empty front of the stream that fits the buffer. -/
theorem receive_eq {chunks rest : List Chunk} {size : Nat} (hs : 0 < size) {data : Bytes}
    (h : receive chunks size = some (data, rest)) :
    data ≠ [] ∧ data.length ≤ size ∧
      chunks.flatMap Subtype.val = data ++ rest.flatMap Subtype.val := by
  cases chunks with
  | nil => cases h
  | cons chunk chunks =>
      obtain ⟨rfl, rfl⟩ := Prod.mk.inj (Option.some.inj h)
      refine ⟨?_, by rw [List.length_take]; omega, ?_⟩
      · rw [Ne, List.take_eq_nil_iff, not_or]
        exact ⟨by omega, chunk.property⟩
      · rw [flatMap_leave, List.flatMap_cons, ← List.append_assoc, List.take_append_drop]

theorem left_receive {n n' : Network} {wire : Wire} {size : Nat} {data : Bytes} (hs : 0 < size)
    (h : n.receive wire size = some (data, n')) : n'.left < n.left := by
  cases wire with
  | inner =>
      obtain ⟨⟨d, rest⟩, hr, he⟩ := Option.map_eq_some_iff.mp h
      obtain ⟨rfl, rfl⟩ := Prod.mk.inj he
      obtain ⟨hne, _, hflat⟩ := receive_eq hs hr
      have := List.length_pos_iff.mpr hne
      simp only [Network.left, hflat, List.length_append]
      omega
  | raw =>
      obtain ⟨⟨d, rest⟩, hr, he⟩ := Option.map_eq_some_iff.mp h
      obtain ⟨rfl, rfl⟩ := Prod.mk.inj he
      obtain ⟨hne, _, hflat⟩ := receive_eq hs hr
      have := List.length_pos_iff.mpr hne
      simp only [Network.left, hflat, List.length_append]
      omega

theorem Network.receive_fits {n n' : Network} {wire : Wire} {size : Nat} {data : Bytes}
    (hs : 0 < size) (h : n.receive wire size = some (data, n')) :
    data ≠ [] ∧ data.length ≤ size := by
  cases wire with
  | inner =>
      obtain ⟨⟨d, rest⟩, hr, he⟩ := Option.map_eq_some_iff.mp h
      obtain ⟨rfl, rfl⟩ := Prod.mk.inj he
      obtain ⟨hne, hlen, _⟩ := receive_eq hs hr
      exact ⟨hne, hlen⟩
  | raw =>
      obtain ⟨⟨d, rest⟩, hr, he⟩ := Option.map_eq_some_iff.mp h
      obtain ⟨rfl, rfl⟩ := Prod.mk.inj he
      obtain ⟨hne, hlen, _⟩ := receive_eq hs hr
      exact ⟨hne, hlen⟩

/-- The size of the buffer for the embedded connection: a short buffer of the caller is not
used. -/
def Target.size (t : Target) : Nat :=
  if xrayChunkSize < t.p.length then t.p.length else xrayChunkSize

theorem Target.size_pos (t : Target) : 0 < t.size := by
  unfold Target.size
  split
  · exact Nat.zero_lt_of_lt ‹_›
  · decide

/-- The buffer after these bytes were read into it. -/
def Target.fill (t : Target) (data : Bytes) : Target :=
  if xrayChunkSize < t.p.length then { t with p := data ++ t.p.drop data.length } else t

/-- The slice that was read. -/
def Target.slice (t : Target) (data : Bytes) : Slice :=
  if xrayChunkSize < t.p.length then ⟨data, t.p.drop data.length ++ t.spare⟩
  else ⟨data, List.replicate (xrayChunkSize - data.length) 0⟩

/-- `Read`. Its last call of the filter is left out, since the branch before it takes every
buffer that is still to be filtered. What a read brings past the padding is not copied to a
short buffer, whose old bytes are then returned. -/
def VisionConn.read (c : VisionConn) (n : Network) (t : Target) : Outcome :=
  match c.drain t.p.length with
  | (some b, c) => ⟨.bytes b, [], c, n⟩
  | (none, c) =>
      if c.directRead then
        match n.receive .raw t.p.length with
        | none => ⟨.eof, [], c, n⟩
        | some (data, n) => ⟨.bytes data, [], c, n⟩
      else
        match _h : n.receive c.conn t.size with
        | none => ⟨.eof, [], c, n⟩
        | some (data, n') =>
            let pull : Pull := ⟨c, t, t.slice data⟩
            if c.withinPaddingBuffers ∨ 0 < c.numberOfPacketToFilter then
              match c.feed (t.slice data) with
              | (some result, c) => ⟨result, [pull], c, n'⟩
              | (none, c) =>
                  let o := VisionConn.read c n' (t.fill data)
                  { o with pulls := pull :: o.pulls }
            else ⟨.bytes ((t.fill data).p.take data.length), [pull], c, n'⟩
termination_by n.left
decreasing_by exact left_receive t.size_pos _h

/-! ## What the filter leaves alone -/

/-- The fields that reading turns on, apart from the embedded connection. -/
structure Reader where
  userUUID : UUID
  input : Bytes
  rawIn : Bytes
  withinPaddingBuffers : Bool
  remainingContent : Int
  remainingPadding : Int
  currentCommand : UInt8
  directRead : Bool
  remainingReader : Option (List Bytes)

def VisionConn.reader (c : VisionConn) : Reader where
  userUUID := c.userUUID
  input := c.input
  rawIn := c.rawIn
  withinPaddingBuffers := c.withinPaddingBuffers
  remainingContent := c.remainingContent
  remainingPadding := c.remainingPadding
  currentCommand := c.currentCommand
  directRead := c.directRead
  remainingReader := c.remainingReader

/-- The filter would slice past the capacity: a server hello of 79 bytes or more whose
session id points behind the memory of the slice. -/
def Overruns (s : Slice) : Prop :=
  79 ≤ s.bytes.length ∧ s.bytes.take 3 = tlsServerHandShakeStart ∧ byteAt s.bytes 5 = 2 ∧
    79 ≤ byteAt s.bytes 3 * 256 + byteAt s.bytes 4 + 5 ∧
    (s.bytes ++ s.behind).length < 43 + byteAt s.bytes 43 + 3

/-- Same reader, same embedded connection. -/
def SameReader (c c' : VisionConn) : Prop := c'.reader = c.reader ∧ c'.conn = c.conn

theorem recognize_same {c c' : VisionConn} {buffer : Slice} (h : c.recognize buffer = some c') :
    SameReader c c' := by
  unfold VisionConn.recognize at h
  simp only at h
  split_ifs at h
  · obtain ⟨_, _, rfl⟩ := Option.map_eq_some_iff.mp h
    exact ⟨rfl, rfl⟩
  all_goals
    obtain rfl := Option.some.inj h
    exact ⟨rfl, rfl⟩

theorem scan_same (c : VisionConn) (b : Bytes) : SameReader c (c.scan b) := by
  unfold VisionConn.scan
  simp only
  split_ifs <;> exact ⟨rfl, rfl⟩

theorem readUInt16BE_isSome {b : Bytes} {offset : Nat} (h : offset + 2 ≤ b.length) :
    ∃ n, Bytes.readUInt16BE b offset = some n := by
  have hl : 2 ≤ (b.drop offset).length := by
    rw [List.length_drop]
    omega
  unfold Bytes.readUInt16BE
  match hd : b.drop offset, hl with
  | hi :: lo :: _, _ => exact ⟨_, rfl⟩

theorem recognize_isSome (c : VisionConn) {buffer : Slice} (h : ¬ Overruns buffer) :
    ∃ c', c.recognize buffer = some c' := by
  unfold VisionConn.recognize
  simp only
  split_ifs with _ h3 h5 h79
  · have hlen : 43 + byteAt buffer.bytes 43 + 1 + 2 ≤ (buffer.bytes ++ buffer.behind).length := by
      by_contra hlt
      exact h ⟨h79.1, h3, h5, h79.2, by omega⟩
    obtain ⟨n, hn⟩ := readUInt16BE_isSome hlen
    exact ⟨_, by rw [hn]; rfl⟩
  all_goals exact ⟨_, rfl⟩

theorem recognize_overruns (c : VisionConn) {buffer : Slice} (h : Overruns buffer) :
    c.recognize buffer = none := by
  obtain ⟨h79, h3, h5, hrecord, hover⟩ := h
  have hnone : Bytes.readUInt16BE (buffer.bytes ++ buffer.behind)
      (43 + byteAt buffer.bytes 43 + 1) = none := by
    have hl : ((buffer.bytes ++ buffer.behind).drop (43 + byteAt buffer.bytes 43 + 1)).length <
        2 := by
      rw [List.length_drop]
      omega
    unfold Bytes.readUInt16BE
    match hd : (buffer.bytes ++ buffer.behind).drop (43 + byteAt buffer.bytes 43 + 1), hl with
    | [], _ => rfl
    | [_], _ => rfl
  unfold VisionConn.recognize
  simp only
  rw [if_pos (by omega), if_pos h3, if_pos h5, if_pos ⟨h79, hrecord⟩, hnone]
  rfl

theorem filterTLS_same {c c' : VisionConn} {buffer : Slice} (h : c.filterTLS buffer = some c') :
    SameReader c c' := by
  obtain ⟨d, hd, rfl⟩ := Option.map_eq_some_iff.mp h
  have h1 := recognize_same hd
  have h2 := scan_same d buffer.bytes
  exact ⟨h2.1.trans h1.1, h2.2.trans h1.2⟩

theorem filterAll_same {c c' : VisionConn} {buffers : List Slice}
    (h : c.filterAll buffers = some c') : SameReader c c' := by
  have hgo : ∀ {c : VisionConn} {buffers : List Slice},
      buffers.foldlM VisionConn.filterTLS c = some c' → SameReader c c' := by
    intro c buffers h
    induction buffers generalizing c with
    | nil =>
        obtain rfl := Option.some.inj h
        exact ⟨rfl, rfl⟩
    | cons b rest ih =>
        rw [List.foldlM_cons] at h
        obtain ⟨d, hd, hr⟩ := Option.bind_eq_some_iff.mp h
        have h1 := filterTLS_same hd
        have h2 := ih hr
        exact ⟨h2.1.trans h1.1, h2.2.trans h1.2⟩
  unfold VisionConn.filterAll at h
  split at h
  · exact hgo h
  · obtain rfl := Option.some.inj h
    exact ⟨rfl, rfl⟩

/-- The filter gets through buffers that do not overrun. -/
theorem filterAll_isSome (c : VisionConn) (buffers : List Slice)
    (h : 0 < c.numberOfPacketToFilter → ∀ s ∈ buffers, ¬ Overruns s) :
    ∃ c', c.filterAll buffers = some c' := by
  unfold VisionConn.filterAll
  split
  · next hpos =>
      have hall := h hpos
      clear h hpos
      induction buffers generalizing c with
      | nil => exact ⟨c, rfl⟩
      | cons b rest ih =>
          obtain ⟨d, hd⟩ := recognize_isSome
            { c with numberOfPacketToFilter := c.numberOfPacketToFilter - 1 }
            (hall b (by simp))
          have hb : c.filterTLS b = some (d.scan b.bytes) := by
            rw [VisionConn.filterTLS, hd]
            rfl
          rw [List.foldlM_cons, hb]
          exact ih (d.scan b.bytes) fun s hs => hall s (List.mem_cons_of_mem _ hs)
  · exact ⟨c, rfl⟩

/-! ## One read, case by case -/

theorem dropWhile_empty (parts : List Bytes) :
    (parts.dropWhile (· = []) = [] ∧ parts.flatten = []) ∨
      ∃ part rest, part ≠ [] ∧ parts.dropWhile (· = []) = part :: rest ∧
        parts.flatten = part ++ rest.flatten := by
  induction parts with
  | nil => exact Or.inl ⟨rfl, rfl⟩
  | cons part rest ih =>
      by_cases hp : part = []
      · rw [List.dropWhile_cons_of_pos (by simpa using hp), List.flatten_cons, hp,
          List.nil_append]
        exact ih
      · rw [List.dropWhile_cons_of_neg (by simpa using hp)]
        exact Or.inr ⟨part, rest, hp, rfl, rfl⟩

/-- Only the multi-reader changes when it is drained. -/
theorem drain_eq (c : VisionConn) {size : Nat} (hs : 0 < size) :
    (c.drain size = (none, { c with remainingReader := none }) ∧
        (c.remainingReader.getD []).flatten = []) ∨
      ∃ b parts, b ≠ [] ∧ c.drain size = (some b, { c with remainingReader := some parts }) ∧
        (c.remainingReader.getD []).flatten = b ++ parts.flatten := by
  unfold VisionConn.drain
  cases hr : c.remainingReader with
  | none => exact Or.inl ⟨congrArg (Prod.mk none) (by rw [← hr]), rfl⟩
  | some parts =>
      simp only [Option.getD_some]
      rcases dropWhile_empty parts with ⟨hd, hflat⟩ | ⟨part, rest, hne, hd, hflat⟩
      · rw [hd]
        exact Or.inl ⟨rfl, hflat⟩
      · rw [hd]
        right
        refine ⟨part.take size, part.drop size :: rest, ?_, if_neg (by omega), ?_⟩
        · rw [Ne, List.take_eq_nil_iff, not_or]
          exact ⟨by omega, hne⟩
        · rw [hflat, List.flatten_cons, ← List.append_assoc, List.take_append_drop]

theorem read_drained {c c1 : VisionConn} {t : Target} {b : Bytes} (n : Network)
    (hd : c.drain t.p.length = (some b, c1)) : c.read n t = ⟨.bytes b, [], c1, n⟩ := by
  rw [VisionConn.read, hd]

theorem read_ended {c c1 : VisionConn} {t : Target} {n : Network}
    (hd : c.drain t.p.length = (none, c1)) (hdirect : c1.directRead = false)
    (hr : n.receive c1.conn t.size = none) : c.read n t = ⟨.eof, [], c1, n⟩ := by
  rw [VisionConn.read, hd]
  simp only [hdirect, Bool.false_eq_true, if_false]
  split
  · rfl
  · next h => rw [hr] at h; cases h

theorem read_fed {c c1 c2 : VisionConn} {t : Target} {n n' : Network} {data : Bytes}
    (hd : c.drain t.p.length = (none, c1)) (hdirect : c1.directRead = false)
    (hr : n.receive c1.conn t.size = some (data, n'))
    (hfed : c1.withinPaddingBuffers = true ∨ 0 < c1.numberOfPacketToFilter)
    (hf : c1.feed (t.slice data) = (none, c2)) :
    c.read n t = { c2.read n' (t.fill data) with
      pulls := ⟨c1, t, t.slice data⟩ :: (c2.read n' (t.fill data)).pulls } := by
  rw [VisionConn.read, hd]
  simp only [hdirect, Bool.false_eq_true, if_false]
  split
  · next h => rw [hr] at h; cases h
  · next h =>
      obtain ⟨rfl, rfl⟩ := Prod.mk.inj (Option.some.inj (hr.symm.trans h))
      rw [if_pos hfed]
      simp only [hf]

theorem read_failed {c c1 c2 : VisionConn} {t : Target} {n n' : Network} {data : Bytes}
    {result : Result} (hd : c.drain t.p.length = (none, c1)) (hdirect : c1.directRead = false)
    (hr : n.receive c1.conn t.size = some (data, n'))
    (hfed : c1.withinPaddingBuffers = true ∨ 0 < c1.numberOfPacketToFilter)
    (hf : c1.feed (t.slice data) = (some result, c2)) :
    c.read n t = ⟨result, [⟨c1, t, t.slice data⟩], c2, n'⟩ := by
  rw [VisionConn.read, hd]
  simp only [hdirect, Bool.false_eq_true, if_false]
  split
  · next h => rw [hr] at h; cases h
  · next h =>
      obtain ⟨rfl, rfl⟩ := Prod.mk.inj (Option.some.inj (hr.symm.trans h))
      rw [if_pos hfed]
      simp only [hf]

theorem read_passed {c c1 : VisionConn} {t : Target} {n n' : Network} {data : Bytes}
    (hd : c.drain t.p.length = (none, c1)) (hdirect : c1.directRead = false)
    (hr : n.receive c1.conn t.size = some (data, n'))
    (hfed : ¬ (c1.withinPaddingBuffers = true ∨ 0 < c1.numberOfPacketToFilter)) :
    c.read n t =
      ⟨.bytes ((t.fill data).p.take data.length), [⟨c1, t, t.slice data⟩], c1, n'⟩ := by
  rw [VisionConn.read, hd]
  simp only [hdirect, Bool.false_eq_true, if_false]
  split
  · next h => rw [hr] at h; cases h
  · next h =>
      obtain ⟨rfl, rfl⟩ := Prod.mk.inj (Option.some.inj (hr.symm.trans h))
      rw [if_neg hfed]

/-- Whatever comes of it, a read of the embedded connection is recorded. -/
theorem pull_mem {c c1 : VisionConn} {t : Target} {n n' : Network} {data : Bytes}
    (hd : c.drain t.p.length = (none, c1)) (hdirect : c1.directRead = false)
    (hr : n.receive c1.conn t.size = some (data, n')) :
    ⟨c1, t, t.slice data⟩ ∈ (c.read n t).pulls := by
  by_cases hfed : c1.withinPaddingBuffers = true ∨ 0 < c1.numberOfPacketToFilter
  · rcases hf : c1.feed (t.slice data) with ⟨_ | result, c2⟩
    · rw [read_fed hd hdirect hr hfed hf]
      exact List.mem_cons_self
    · rw [read_failed hd hdirect hr hfed hf]
      exact List.mem_cons_self
  · rw [read_passed hd hdirect hr hfed]
    exact List.mem_cons_self

theorem Target.length_fill {t : Target} {data : Bytes} (h : data.length ≤ t.size) :
    (t.fill data).p.length = t.p.length := by
  unfold Target.size at h
  unfold Target.fill
  split
  · next hl =>
      rw [if_pos hl] at h
      simp only [List.length_append, List.length_drop]
      omega
  · rfl

/-! ## Writing -/

/-- A buffer behind its header and in front of its padding; `random` is what the random
number is reduced from. -/
def VisionConn.padding (c : VisionConn) (buffer : Bytes) (command : UInt8) (random : Nat) :
    Bytes × VisionConn :=
  let contentLen := buffer.length
  let paddingLen :=
    if contentLen < 900 ∧ c.isTLS then random % 500 + 900 - contentLen else random % 256
  ((if c.writeUUID then c.userUUID.val else []) ++
      (command :: Bytes.uint16BE contentLen ++ Bytes.uint16BE paddingLen ++ buffer ++
        List.replicate paddingLen 0),
    { c with writeUUID := false })

/-- The index at which a pattern last occurs. -/
def lastIndex (pattern b : Bytes) : Option Nat :=
  (Bytes.indexOf pattern.reverse b.reverse).map fun i => b.length - i - pattern.length

def reshapeBuffer (b : Bytes) : List Bytes :=
  let bufferLimit := 8192 - 21
  if b.length < bufferLimit then [b]
  else
    let index := match lastIndex tlsApplicationDataStart b with
      | some (i + 1) => i + 1
      | _ => 8192 / 2
    [b.take index, b.drop index]

/-- The loop of `Write` over the buffers from an index on: the buffers padded up to where it
breaks, and the index at which it turns to direct. -/
def VisionConn.padAll (c : VisionConn) (random : Nat → Nat) :
    Nat → List Bytes → List Bytes × Nat × VisionConn
  | _, [] => ([], 0, c)
  | i, buffer :: rest =>
      if c.isTLS ∧ 6 < buffer.length ∧ tlsApplicationDataStart = buffer.take 3 then
        if c.enableXTLS then
          let (out, c) := VisionConn.padding { c with directWrite := true, isPadding := false }
            buffer commandPaddingDirect (random i)
          (out :: rest, i, c)
        else
          let (out, c) := VisionConn.padding { c with isPadding := false } buffer
            commandPaddingEnd (random i)
          (out :: rest, 0, c)
      else if !c.isTLS12orAbove ∧ c.numberOfPacketToFilter ≤ 1 then
        let (out, c) := VisionConn.padding { c with isPadding := false } buffer
          commandPaddingEnd (random i)
        (out :: rest, 0, c)
      else
        let (out, c) := c.padding buffer commandPaddingContinue (random i)
        let (buffers, specIndex, c) := VisionConn.padAll c random (i + 1) rest
        (out :: buffers, specIndex, c)

/-- What one `Write` does: the caller's slice, its random numbers, and how many writes to a
connection succeed before one fails, if one does. -/
structure Input where
  p : Slice
  random : Nat → Nat
  succeeding : Option Nat := none

/-- The buffers go out until a write fails. -/
def Input.delivered (i : Input) (buffers : List (Wire × Bytes)) : List (Wire × Bytes) :=
  match i.succeeding with
  | none => buffers
  | some k => buffers.take k

/-- Whether the first writes, as many as there are buffers, succeed. -/
def Input.passes (i : Input) (buffers : List Bytes) : Bool :=
  match i.succeeding with
  | none => true
  | some k => buffers.length ≤ k

/-- `Write`: the state after it and what went to which connection. None is a panic. -/
def VisionConn.write (c : VisionConn) (i : Input) : Option (VisionConn × List (Wire × Bytes)) :=
  match (if 0 < c.numberOfPacketToFilter then c.filterTLS i.p else some c) with
  | none => none
  | some c =>
      if c.isPadding then
        let (buffers, specIndex, c) := c.padAll i.random 0 (reshapeBuffer i.p.bytes)
        if c.directWrite then
          let front := buffers.take (specIndex + 1)
          let back := buffers.drop (specIndex + 1)
          let sent := i.delivered (front.map (c.conn, ·) ++ back.map (Wire.raw, ·))
          if i.passes front then some ({ c with conn := .raw }, sent) else some (c, sent)
        else some (c, i.delivered (buffers.map (c.conn, ·)))
      else some (c, i.delivered [(if c.directWrite then .raw else c.conn, i.p.bytes)])

end DshClashProxy.Core.Vision
