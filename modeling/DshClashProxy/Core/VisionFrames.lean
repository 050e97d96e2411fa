import DshClashProxy.Core.Vision

/-!
# Reading a padded stream

A stream of frames is unpadded to its contents however it is cut, as long as the first read
holds the user's id and a header, no read ends inside a later header, and no read of the
raw bytes looks like a new stream while the filter is on.
-/
namespace DshClashProxy.Core.VisionFrames

open Js Vision

/-- The content and the padding of a frame. -/
structure Frame where
  content : Bytes
  padding : Bytes
  content_le : content.length ≤ 65535
  padding_le : padding.length ≤ 65535

def Frame.encode (f : Frame) (command : UInt8) : Bytes :=
  command :: Bytes.uint16BE f.content.length ++ Bytes.uint16BE f.padding.length ++
    (f.content ++ f.padding)

/-- What follows a frame. -/
inductive Rest where
  | frames (continued : List Frame) (last : Frame) (raw : Bytes)
  | raw (bytes : Bytes)

def Rest.bytes : Rest → Bytes
  | frames continued last tail =>
      continued.flatMap (Frame.encode · commandPaddingContinue) ++
        (last.encode commandPaddingEnd ++ tail)
  | raw bytes => bytes

def Rest.payload : Rest → Bytes
  | frames continued last tail => continued.flatMap Frame.content ++ (last.content ++ tail)
  | raw bytes => bytes

/-- The command of the frame before. -/
def Rest.command : Rest → UInt8
  | frames _ _ _ => commandPaddingContinue
  | raw _ => commandPaddingEnd

/-- A padded stream: the user's id, Continue frames, an End frame and raw bytes. -/
structure Stream where
  uuid : UUID
  continued : List Frame
  last : Frame
  raw : Bytes

def Stream.rest (s : Stream) : Rest := .frames s.continued s.last s.raw

def Stream.bytes (s : Stream) : Bytes := s.uuid.val ++ s.rest.bytes

def Stream.payload (s : Stream) : Bytes := s.rest.payload

/-! ## Reads that go wrong -/

/-- A read ends inside a header, the next of which starts after `toHeader` bytes. -/
def endsInHeader (toHeader : Nat) (b : Bytes) : Bool :=
  if b.length ≤ toHeader then false
  else if (b.drop toHeader).length < 5 then true
  else
    let header := b.drop toHeader
    if header.getD 0 0 = commandPaddingEnd then false
    else endsInHeader (byteAt header 1 * 256 + byteAt header 2 +
      (byteAt header 3 * 256 + byteAt header 4)) (header.drop 5)
termination_by b.length
decreasing_by
  rw [List.length_drop, List.length_drop]
  omega

/-- A read of the embedded connection, with the state before it, that does no harm. -/
structure Clean (c : VisionConn) (buffer : Slice) : Prop where
  /-- The first read holds the id and a whole header, and ends in no later header. -/
  first : c.frameless = true → c.withinPaddingBuffers = true →
    21 ≤ buffer.bytes.length ∧ endsInHeader 0 (buffer.bytes.drop 16) = false
  /-- A read within the frames ends in no header. -/
  within : c.frameless = false → c.currentCommand ≠ commandPaddingEnd →
    endsInHeader (c.remainingContent + c.remainingPadding).toNat buffer.bytes = false
  /-- A read of raw bytes does not start a stream while the filter is on. -/
  raw : c.withinPaddingBuffers = false → 0 < c.numberOfPacketToFilter →
    c.announced buffer.bytes = false
  /-- No content that goes through the filter overruns. -/
  fits : 0 < c.numberOfPacketToFilter → ∀ s ∈ (c.unPadding buffer).1, ¬ Overruns s

/-! ## The loop over a buffer -/

/-- What is ahead of a reader within the frames: the rest of a frame and what follows it. -/
structure Ahead where
  content : Bytes
  padding : Bytes
  rest : Rest

def Ahead.bytes (a : Ahead) : Bytes := a.content ++ (a.padding ++ a.rest.bytes)

def Ahead.payload (a : Ahead) : Bytes := a.content ++ a.rest.payload

/-- The reader with its counters and its command set for what is ahead. -/
def atAhead (c : VisionConn) (a : Ahead) : VisionConn :=
  { c with remainingContent := a.content.length, remainingPadding := a.padding.length,
           currentCommand := a.rest.command }

theorem headerLength {n : Nat} (h : n ≤ 65535) :
    (UInt8.ofNat (n / 256)).toNat * 256 + (UInt8.ofNat n).toNat = n := by
  rw [UInt8.toNat_ofNat', UInt8.toNat_ofNat']
  omega

/-- The first frame that follows. -/
theorem Rest.frames_cases (continued : List Frame) (last : Frame) (tail : Bytes) :
    ∃ (f : Frame) (rest' : Rest),
      (Rest.frames continued last tail).bytes = f.encode rest'.command ++ rest'.bytes ∧
      (Rest.frames continued last tail).payload = f.content ++ rest'.payload := by
  cases continued with
  | nil => exact ⟨last, .raw tail, rfl, rfl⟩
  | cons f continued =>
      refine ⟨f, .frames continued last tail, ?_, ?_⟩
      · simp only [Rest.bytes, Rest.command, List.flatMap_cons, List.append_assoc]
      · simp only [Rest.payload, List.flatMap_cons, List.append_assoc]

theorem endsInHeader_drop {k stop : Nat} {b : Bytes} (hk : stop ≤ k) (hb : stop ≤ b.length) :
    endsInHeader (k - stop) (b.drop stop) = endsInHeader k b := by
  have hdrop : (b.drop stop).drop (k - stop) = b.drop k := by
    rw [List.drop_drop, Nat.add_sub_cancel' hk]
  have hle : (b.drop stop).length ≤ k - stop ↔ b.length ≤ k := by
    rw [List.length_drop]
    omega
  rw [endsInHeader, endsInHeader]
  simp only [hdrop, hle]

/-- A read that reaches a header and does not end in it holds it whole. -/
theorem five_le_of_not_endsInHeader {b : Bytes} (hb : b ≠ []) (h : endsInHeader 0 b = false) :
    5 ≤ b.length := by
  by_contra hlt
  have hpos := List.length_pos_iff.mpr hb
  rw [endsInHeader, if_neg (by omega), if_pos (by rw [List.length_drop]; omega)] at h
  cases h

/-- The five bytes of a header. -/
def Frame.header (f : Frame) (command : UInt8) : Bytes :=
  command :: Bytes.uint16BE f.content.length ++ Bytes.uint16BE f.padding.length

theorem endsInHeader_header (f : Frame) {command : UInt8} (hc : command ≠ commandPaddingEnd)
    (b : Bytes) :
    endsInHeader 0 (f.header command ++ b) =
      endsInHeader (f.content.length + f.padding.length) b := by
  have h1 : ¬ (f.header command ++ b).length ≤ 0 := by simp [Frame.header]
  have h2 : ¬ ((f.header command ++ b).drop 0).length < 5 := by
    simp [Frame.header, Bytes.uint16BE]
  have hcontent := headerLength f.content_le
  have hpadding := headerLength f.padding_le
  rw [endsInHeader, if_neg h1, if_neg h2]
  simp only [List.drop_zero]
  rw [if_neg (by exact hc)]
  change endsInHeader ((UInt8.ofNat (f.content.length / 256)).toNat * 256 +
    (UInt8.ofNat f.content.length).toNat + ((UInt8.ofNat (f.padding.length / 256)).toNat * 256 +
      (UInt8.ofNat f.padding.length).toNat)) b = _
  rw [hcontent, hpadding]

/-- The loop takes the buffer from the front of what is ahead and yields its content. -/
structure Consumed (c : VisionConn) (a : Ahead) (later : Bytes) (buffers : List Slice)
    (c' : VisionConn) (a' : Ahead) : Prop where
  state : c' = atAhead c a'
  bytes : a'.bytes = later
  payload : a.payload = (buffers.map Slice.bytes).flatten ++ a'.payload

theorem loop_nil (c : VisionConn) (behind : Bytes) : c.unPaddingLoop behind [] = ([], c) := by
  rw [VisionConn.unPaddingLoop, if_pos rfl]

/-- Behind the End frame the whole buffer is content. -/
theorem loop_raw (c : VisionConn) (tail behind : Bytes) {b : Bytes} (hb : b ≠ []) :
    (atAhead c ⟨[], [], .raw tail⟩).unPaddingLoop behind b =
      ([⟨b, behind⟩], atAhead c ⟨[], [], .raw tail⟩) := by
  have hend : (atAhead c ⟨[], [], .raw tail⟩).currentCommand = commandPaddingEnd := rfl
  rw [VisionConn.unPaddingLoop, if_neg hb, if_pos ⟨Int.le_refl 0, Int.le_refl 0⟩, if_pos hend]

theorem loop_header (c : VisionConn) {rest : Rest} (hr : rest.command ≠ commandPaddingEnd)
    (f : Frame) (rest' : Rest) (behind b : Bytes) :
    (atAhead c ⟨[], [], rest⟩).unPaddingLoop behind (f.header rest'.command ++ b) =
      (atAhead c ⟨f.content, f.padding, rest'⟩).unPaddingLoop behind b := by
  have h1 : f.header rest'.command ++ b ≠ [] := List.cons_ne_nil _ _
  have h2 : ¬ (f.header rest'.command ++ b).length < 5 := by simp [Frame.header, Bytes.uint16BE]
  have hcontent := headerLength f.content_le
  have hpadding := headerLength f.padding_le
  rw [VisionConn.unPaddingLoop, if_neg h1, if_pos ⟨Int.le_refl 0, Int.le_refl 0⟩,
    if_neg (by exact hr), if_neg h2]
  have hstate : atAhead c ⟨f.content, f.padding, rest'⟩ =
      { atAhead c ⟨[], [], rest⟩ with
        currentCommand := (f.header rest'.command ++ b).getD 0 0
        remainingContent := ↑(byteAt (f.header rest'.command ++ b) 1 * 256 +
          byteAt (f.header rest'.command ++ b) 2)
        remainingPadding := ↑(byteAt (f.header rest'.command ++ b) 3 * 256 +
          byteAt (f.header rest'.command ++ b) 4) } := by
    change _ = { atAhead c ⟨[], [], rest⟩ with
      currentCommand := rest'.command
      remainingContent := ↑((UInt8.ofNat (f.content.length / 256)).toNat * 256 +
        (UInt8.ofNat f.content.length).toNat)
      remainingPadding := ↑((UInt8.ofNat (f.padding.length / 256)).toNat * 256 +
        (UInt8.ofNat f.padding.length).toNat) }
    rw [hcontent, hpadding]
    rfl
  rw [hstate]
  rfl

theorem loop_content (c : VisionConn) {a : Ahead} (ha : a.content ≠ []) (behind : Bytes)
    {b : Bytes} (hb : b ≠ []) :
    (atAhead c a).unPaddingLoop behind b =
      (⟨b.take (min a.content.length b.length),
          b.drop (min a.content.length b.length) ++ behind⟩ ::
        ((atAhead c { a with content := a.content.drop b.length }).unPaddingLoop behind
          (b.drop (min a.content.length b.length))).1,
        ((atAhead c { a with content := a.content.drop b.length }).unPaddingLoop behind
          (b.drop (min a.content.length b.length))).2) := by
  have hpos := List.length_pos_iff.mpr ha
  have hcontent : (atAhead c a).remainingContent = a.content.length := rfl
  have h1 : ¬ ((atAhead c a).remainingContent ≤ 0 ∧ (atAhead c a).remainingPadding ≤ 0) := by
    rw [hcontent]
    omega
  have h2 : 0 < (atAhead c a).remainingContent := by
    rw [hcontent]
    omega
  have hstate : { atAhead c a with
      remainingContent := (a.content.length : Int) - (min a.content.length b.length : Nat) } =
        atAhead c { a with content := a.content.drop b.length } := by
    simp only [atAhead, List.length_drop, VisionConn.mk.injEq, true_and, and_true]
    omega
  rw [VisionConn.unPaddingLoop, if_neg hb, if_neg h1, if_pos h2]
  simp only [hcontent, Int.toNat_natCast, hstate]

theorem loop_padding (c : VisionConn) {a : Ahead} (hc : a.content = []) (ha : a.padding ≠ [])
    (behind : Bytes) {b : Bytes} (hb : b ≠ []) :
    (atAhead c a).unPaddingLoop behind b =
      (atAhead c { a with padding := a.padding.drop b.length }).unPaddingLoop behind
        (b.drop (min a.padding.length b.length)) := by
  have hpos := List.length_pos_iff.mpr ha
  have hcontent : (atAhead c a).remainingContent = 0 := by rw [atAhead, hc]; rfl
  have hpadding : (atAhead c a).remainingPadding = a.padding.length := rfl
  have h1 : ¬ ((atAhead c a).remainingContent ≤ 0 ∧ (atAhead c a).remainingPadding ≤ 0) := by
    rw [hpadding]
    omega
  have h2 : ¬ 0 < (atAhead c a).remainingContent := by
    rw [hcontent]
    omega
  have hstate : { atAhead c a with
      remainingPadding := (a.padding.length : Int) - (min a.padding.length b.length : Nat) } =
        atAhead c { a with padding := a.padding.drop b.length } := by
    simp only [atAhead, List.length_drop, VisionConn.mk.injEq, true_and, and_true]
    omega
  rw [VisionConn.unPaddingLoop, if_neg hb, if_neg h1, if_neg h2]
  simp only [hpadding, Int.toNat_natCast, hstate]

/-- The front that a buffer and a part ahead have in common. -/
theorem split_front {a b x later : Bytes} (h : a ++ x = b ++ later) :
    b.take (min a.length b.length) = a.take b.length ∧
      a.drop b.length ++ x = b.drop (min a.length b.length) ++ later := by
  rcases Nat.le_total a.length b.length with hle | hle
  · obtain ⟨t, rfl⟩ := List.prefix_of_prefix_length_le (List.prefix_append a x)
      (h ▸ List.prefix_append b later) hle
    rw [List.append_assoc, List.append_cancel_left_eq] at h
    rw [Nat.min_eq_left hle, List.take_left, List.drop_left, List.take_of_length_le hle,
      List.drop_of_length_le hle]
    exact ⟨rfl, h⟩
  · obtain ⟨t, rfl⟩ := List.prefix_of_prefix_length_le (List.prefix_append b later)
      (h ▸ List.prefix_append a x) hle
    rw [List.append_assoc, List.append_cancel_left_eq] at h
    rw [Nat.min_eq_right hle, List.take_left, List.drop_left, List.take_length,
      List.drop_length]
    exact ⟨rfl, h⟩

/-- The buffer does not end in a header of what is ahead. -/
def Uncut (a : Ahead) (b : Bytes) : Prop :=
  a.rest.command = commandPaddingEnd ∨
    endsInHeader (a.content.length + a.padding.length) b = false

theorem Uncut.behind_content {a : Ahead} {b : Bytes} (h : Uncut a b) :
    Uncut { a with content := a.content.drop b.length }
      (b.drop (min a.content.length b.length)) := by
  refine h.imp_right fun h => ?_
  rw [← h, ← endsInHeader_drop (show min a.content.length b.length ≤
    a.content.length + a.padding.length by omega) (Nat.min_le_right _ _), List.length_drop]
  congr 1
  dsimp only
  omega

theorem Uncut.behind_padding {a : Ahead} {b : Bytes} (hcontent : a.content = [])
    (h : Uncut a b) :
    Uncut { a with padding := a.padding.drop b.length }
      (b.drop (min a.padding.length b.length)) := by
  refine h.imp_right fun h => ?_
  rw [← h, ← endsInHeader_drop (show min a.padding.length b.length ≤
    a.content.length + a.padding.length by omega) (Nat.min_le_right _ _), List.length_drop]
  congr 1
  simp only [hcontent, List.length_nil]
  omega

/-- A buffer that starts at a frame and ends in no header holds its header whole. -/
theorem Uncut.header {continued : List Frame} {last : Frame} {tail b later : Bytes} (hnil : b ≠ [])
    (hb : (Rest.frames continued last tail).bytes = b ++ later)
    (h : Uncut ⟨[], [], .frames continued last tail⟩ b) :
    ∃ (f : Frame) (rest' : Rest) (t : Bytes), b = f.header rest'.command ++ t ∧
      Ahead.bytes ⟨f.content, f.padding, rest'⟩ = t ++ later ∧
      (Rest.frames continued last tail).payload = f.content ++ rest'.payload ∧
      Uncut ⟨f.content, f.padding, rest'⟩ t := by
  have hne : (Rest.frames continued last tail).command ≠ commandPaddingEnd :=
    show commandPaddingContinue ≠ commandPaddingEnd by decide
  have hcut : endsInHeader 0 b = false := h.resolve_left hne
  obtain ⟨f, rest', hbytes, hpayload⟩ := Rest.frames_cases continued last tail
  have hfull : (f.header rest'.command ++ (f.content ++ (f.padding ++ rest'.bytes))) =
      b ++ later := by
    rw [← hb, hbytes, Frame.encode, ← Frame.header, List.append_assoc, List.append_assoc]
  have hheader : f.header rest'.command <+: b :=
    List.prefix_of_prefix_length_le (hfull ▸ List.prefix_append _ _)
      (List.prefix_append b later) (five_le_of_not_endsInHeader hnil hcut)
  obtain ⟨t, rfl⟩ := hheader
  rw [List.append_assoc, List.append_cancel_left_eq] at hfull
  refine ⟨f, rest', t, rfl, hfull, hpayload, ?_⟩
  by_cases he : rest'.command = commandPaddingEnd
  · exact Or.inl he
  · rw [endsInHeader_header f he] at hcut
    exact Or.inr hcut

theorem unPaddingLoop_consumes (c : VisionConn) (behind : Bytes) {a : Ahead} {b later : Bytes}
    (hb : a.bytes = b ++ later) (hcut : Uncut a b) :
    ∃ a', Consumed c a later ((atAhead c a).unPaddingLoop behind b).1
      ((atAhead c a).unPaddingLoop behind b).2 a' := by
  induction hn : b.length using Nat.strong_induction_on generalizing a b with
  | _ n ih =>
      by_cases hnil : b = []
      · subst hnil
        rw [loop_nil]
        exact ⟨a, rfl, hb, rfl⟩
      have hpos := List.length_pos_iff.mpr hnil
      by_cases hcontent : a.content = []
      · by_cases hpadding : a.padding = []
        · obtain ⟨content, padding, rest⟩ := a
          obtain rfl : content = [] := hcontent
          obtain rfl : padding = [] := hpadding
          cases rest with
          | raw tail =>
              rw [loop_raw c tail behind hnil]
              have ht : tail = b ++ later := hb
              refine ⟨⟨[], [], .raw later⟩, rfl, rfl, ?_⟩
              simpa [Ahead.payload, Rest.payload] using ht
          | frames continued last tail =>
              have hne : (Rest.frames continued last tail).command ≠ commandPaddingEnd :=
                show commandPaddingContinue ≠ commandPaddingEnd by decide
              obtain ⟨f, rest', t, rfl, ht, hpayload, hcut'⟩ := hcut.header hnil hb
              have hshort : t.length < n := by
                rw [← hn, List.length_append]
                exact Nat.lt_add_of_pos_left (by simp [Frame.header])
              rw [loop_header c hne]
              obtain ⟨a', hs, hl, hp⟩ :=
                ih t.length hshort (a := ⟨f.content, f.padding, rest'⟩) ht hcut' rfl
              exact ⟨a', hs, hl, hpayload.trans hp⟩
        · have hmin := List.length_pos_iff.mpr hpadding
          obtain ⟨_, hdrop⟩ := split_front (by simpa [Ahead.bytes, hcontent] using hb)
          rw [loop_padding c hcontent hpadding behind hnil]
          obtain ⟨a', hs, hl, hp⟩ := ih (b.drop (min a.padding.length b.length)).length
            (by rw [List.length_drop]; omega)
            (a := { a with padding := a.padding.drop b.length })
            (by simpa [Ahead.bytes, hcontent] using hdrop) (hcut.behind_padding hcontent) rfl
          exact ⟨a', hs, hl, hp⟩
      · have hmin := List.length_pos_iff.mpr hcontent
        obtain ⟨htake, hdrop⟩ := split_front hb
        rw [loop_content c hcontent behind hnil]
        obtain ⟨a', hs, hl, hp⟩ := ih (b.drop (min a.content.length b.length)).length
          (by rw [List.length_drop]; omega)
          (a := { a with content := a.content.drop b.length }) hdrop hcut.behind_content rfl
        refine ⟨a', hs, hl, ?_⟩
        rw [List.map_cons, List.flatten_cons, List.append_assoc, ← hp, htake]
        simp only [Ahead.payload, ← List.append_assoc, List.take_append_drop]

/-! ## Between two reads -/

/-- No frame is ahead any more. -/
def Ahead.Over (a : Ahead) : Prop :=
  a.content = [] ∧ a.padding = [] ∧ a.rest.command = commandPaddingEnd

/-- What is still to be read, and the payload in it. -/
inductive Phase (r : Reader) : Bytes → Bytes → Prop where
  | fresh (s : Stream) : r.userUUID = s.uuid → r.remainingContent = -1 →
      r.remainingPadding = -1 → r.withinPaddingBuffers = true → Phase r s.bytes s.payload
  | framed (a : Ahead) : r.remainingContent = a.content.length →
      r.remainingPadding = a.padding.length → r.currentCommand = a.rest.command →
      r.withinPaddingBuffers = true → ¬ a.Over → Phase r a.bytes a.payload
  | raw (tail : Bytes) : r.remainingContent = -1 → r.remainingPadding = -1 →
      r.withinPaddingBuffers = false → Phase r tail tail

theorem phase_remainingReader {r : Reader} {bytes payload : Bytes} (h : Phase r bytes payload)
    (parts : Option (List Bytes)) : Phase { r with remainingReader := parts } bytes payload := by
  cases h with
  | fresh s hu hrc hrp hw => exact .fresh s hu hrc hrp hw
  | framed a hrc hrp hcmd hw hover => exact .framed a hrc hrp hcmd hw hover
  | raw _ hrc hrp hw => exact .raw _ hrc hrp hw

theorem eq_atAhead {c : VisionConn} {a : Ahead} (h1 : c.remainingContent = a.content.length)
    (h2 : c.remainingPadding = a.padding.length) (h3 : c.currentCommand = a.rest.command) :
    c = atAhead c a := by
  rw [atAhead, ← h1, ← h2, ← h3]

/-- With the frames over the reader turns to the raw bytes, else it stays within. -/
theorem settle_atAhead (c : VisionConn) (a : Ahead) (buffers : List Slice) :
    ∃ c', (atAhead c a).settle buffers = (some buffers, c') ∧
      c'.numberOfPacketToFilter = c.numberOfPacketToFilter ∧ c'.conn = c.conn ∧
      c'.directRead = c.directRead ∧ Phase c'.reader a.bytes a.payload := by
  have hcontent : (atAhead c a).remainingContent = a.content.length := rfl
  have hpadding : (atAhead c a).remainingPadding = a.padding.length := rfl
  by_cases hz : a.content = [] ∧ a.padding = []
  · obtain ⟨content, padding, rest⟩ := a
    obtain ⟨rfl, rfl⟩ : content = [] ∧ padding = [] := hz
    have h0 : (atAhead c ⟨[], [], rest⟩).remainingContent = 0 ∧
        (atAhead c ⟨[], [], rest⟩).remainingPadding = 0 := ⟨rfl, rfl⟩
    unfold VisionConn.settle
    rw [if_pos h0]
    cases rest with
    | raw tail =>
        refine ⟨_, if_pos rfl, rfl, rfl, rfl, ?_⟩
        exact .raw tail rfl rfl rfl
    | frames continued last tail =>
        have h1 : (atAhead c ⟨[], [], .frames continued last tail⟩).currentCommand ≠
            commandPaddingEnd := show commandPaddingContinue ≠ commandPaddingEnd by decide
        have h2 : (atAhead c ⟨[], [], .frames continued last tail⟩).currentCommand ≠
            commandPaddingDirect := show commandPaddingContinue ≠ commandPaddingDirect by decide
        rw [if_neg h1, if_neg h2]
        refine ⟨_, if_pos rfl, rfl, rfl, rfl, ?_⟩
        exact .framed ⟨[], [], .frames continued last tail⟩ rfl rfl rfl rfl fun h => h1 h.2.2
  · have h0 : ¬ ((atAhead c a).remainingContent = 0 ∧ (atAhead c a).remainingPadding = 0) := by
      rw [hcontent, hpadding]
      intro h
      exact hz ⟨List.length_eq_zero_iff.mp (by omega), List.length_eq_zero_iff.mp (by omega)⟩
    have h1 : 0 < (atAhead c a).remainingContent ∨ 0 < (atAhead c a).remainingPadding := by
      rw [hcontent, hpadding] at h0 ⊢
      omega
    unfold VisionConn.settle
    rw [if_neg h0, if_pos h1]
    exact ⟨_, rfl, rfl, rfl, rfl, .framed a rfl rfl rfl rfl fun h => hz ⟨h.1, h.2.1⟩⟩

/-- A clean read is unpadded, or it is raw and stays as it is. -/
theorem unPadding_cases {c : VisionConn} {b later payload behind : Bytes}
    (hp : Phase c.reader (b ++ later) payload) (hc : Clean c ⟨b, behind⟩)
    (hfed : c.withinPaddingBuffers = true ∨ 0 < c.numberOfPacketToFilter) :
    (∃ a', (c.unPadding ⟨b, behind⟩).2 = atAhead c a' ∧ a'.bytes = later ∧
        payload = ((c.unPadding ⟨b, behind⟩).1.map Slice.bytes).flatten ++ a'.payload) ∨
      c.remainingContent = -1 ∧ c.remainingPadding = -1 ∧ payload = b ++ later ∧
        c.unPadding ⟨b, behind⟩ = ([⟨b, behind⟩], c) := by
  generalize hahead : b ++ later = ahead at hp
  cases hp with
  | fresh s hu hrc hrp hw =>
      have hrc : c.remainingContent = -1 := hrc
      have hrp : c.remainingPadding = -1 := hrp
      have hframeless : c.frameless = true := by simp [VisionConn.frameless, hrc, hrp]
      obtain ⟨h21, hcut⟩ := hc.first hframeless hw
      have hprefix : s.uuid.val <+: b :=
        List.prefix_of_prefix_length_le (hahead ▸ List.prefix_append s.uuid.val s.rest.bytes)
          (List.prefix_append b later) (by rw [s.uuid.property]; simp only at h21; omega)
      obtain ⟨t, rfl⟩ := hprefix
      have hdrop : (s.uuid.val ++ t).drop 16 = t := List.drop_left' s.uuid.property
      have hannounced : c.announced (s.uuid.val ++ t) = true := by
        have hu : c.userUUID = s.uuid := hu
        have htake : (s.uuid.val ++ t).take 16 = c.userUUID.val := by
          rw [List.take_left' s.uuid.property, hu]
        simp only at h21
        simp only [VisionConn.announced, hframeless, htake, h21, decide_true, Bool.and_self]
      have hahead : s.rest.bytes = t ++ later := by
        rw [Stream.bytes, List.append_assoc, List.append_cancel_left_eq] at hahead
        exact hahead.symm
      rw [hdrop] at hcut
      obtain ⟨a', hs, hl, hpay⟩ := unPaddingLoop_consumes c behind (a := ⟨[], [], s.rest⟩)
        hahead (Or.inr hcut)
      have hloop : c.unPadding ⟨s.uuid.val ++ t, behind⟩ =
          (atAhead c ⟨[], [], s.rest⟩).unPaddingLoop behind t := by
        rw [VisionConn.unPadding, if_pos hannounced, hdrop]
        rfl
      rw [hloop]
      exact Or.inl ⟨a', hs, hl, hpay⟩
  | framed a hrc hrp hcmd hw hover =>
      have hstate := eq_atAhead hrc hrp hcmd
      have hrc : c.remainingContent = a.content.length := hrc
      have hrp : c.remainingPadding = a.padding.length := hrp
      have hcmd : c.currentCommand = a.rest.command := hcmd
      have hframeless : c.frameless = false := by
        simp only [VisionConn.frameless, hrc, Bool.and_eq_false_iff, decide_eq_false_iff_not]
        left
        omega
      have hcut : a.rest.command = commandPaddingEnd ∨
          endsInHeader (a.content.length + a.padding.length) b = false := by
        by_cases he : a.rest.command = commandPaddingEnd
        · exact Or.inl he
        · have := hc.within hframeless (by rw [hcmd]; exact he)
          rw [hrc, hrp] at this
          exact Or.inr this
      have hannounced : ¬ c.announced b = true := by simp [VisionConn.announced, hframeless]
      have hloop : c.unPadding ⟨b, behind⟩ = (atAhead c a).unPaddingLoop behind b := by
        rw [VisionConn.unPadding, if_neg hannounced, hframeless, ← hstate]
        rfl
      obtain ⟨a', hs, hl, hpay⟩ := unPaddingLoop_consumes c behind hahead.symm hcut
      rw [hloop]
      exact Or.inl ⟨a', hs, hl, hpay⟩
  | raw tail hrc hrp hw =>
      have hrc : c.remainingContent = -1 := hrc
      have hrp : c.remainingPadding = -1 := hrp
      have hw : c.withinPaddingBuffers = false := hw
      have hframeless : c.frameless = true := by simp [VisionConn.frameless, hrc, hrp]
      have hannounced : c.announced b = false :=
        hc.raw hw (hfed.resolve_left (by rw [hw]; decide))
      refine Or.inr ⟨hrc, hrp, rfl, ?_⟩
      simp [VisionConn.unPadding, hannounced, hframeless]

/-- A clean read leaves its content in the multi-reader and the rest ahead. -/
theorem feed_clean {c : VisionConn} {b later payload behind : Bytes}
    (hp : Phase c.reader (b ++ later) payload) (hc : Clean c ⟨b, behind⟩)
    (hfed : c.withinPaddingBuffers = true ∨ 0 < c.numberOfPacketToFilter) :
    ∃ c' parts payload', c.feed ⟨b, behind⟩ = (none, c') ∧ c'.remainingReader = some parts ∧
      payload = parts.flatten ++ payload' ∧ Phase c'.reader later payload' ∧
      c'.conn = c.conn ∧ c'.directRead = c.directRead := by
  have hcases := unPadding_cases hp hc hfed
  have hfits := hc.fits
  rcases hu : c.unPadding ⟨b, behind⟩ with ⟨buffers, c1⟩
  rw [hu] at hcases hfits
  -- the settled state, from which the filter leaves the reader alone
  obtain ⟨c2, payload', hsettle, hnumber, hconn, hdirect, hpay, hphase⟩ : ∃ c2 payload',
      c1.settle buffers = (some buffers, c2) ∧
        c2.numberOfPacketToFilter = c.numberOfPacketToFilter ∧ c2.conn = c.conn ∧
        c2.directRead = c.directRead ∧
        payload = (buffers.map Slice.bytes).flatten ++ payload' ∧
        Phase c2.reader later payload' := by
    rcases hcases with ⟨a', hstate, hbytes, hpay⟩ | ⟨hrc, hrp, hpay, hun⟩
    · obtain ⟨c2, hsettle, hnumber, hconn, hdirect, hphase⟩ := settle_atAhead c a' buffers
      simp only at hstate hpay
      rw [hbytes] at hphase
      exact ⟨c2, _, hstate ▸ hsettle, hnumber, hconn, hdirect, hpay, hphase⟩
    · obtain ⟨rfl, rfl⟩ := Prod.mk.inj hun
      have hsettle : c1.settle [⟨b, behind⟩] =
          (some [⟨b, behind⟩], { c1 with withinPaddingBuffers := false }) := by
        rw [VisionConn.settle, if_neg (by omega), if_neg (by omega)]
      exact ⟨_, later, hsettle, rfl, rfl, rfl, by simpa using hpay, .raw later hrc hrp rfl⟩
  obtain ⟨c3, hfilter⟩ := filterAll_isSome c2 buffers (by rw [hnumber]; exact hfits)
  obtain ⟨hreader, hconn3⟩ := filterAll_same hfilter
  refine ⟨{ c3 with remainingReader := some (buffers.map Slice.bytes) }, _, payload', ?_, rfl,
    hpay, ?_, hconn3.trans hconn, ?_⟩
  · simp only [VisionConn.feed, hu, hsettle, hfilter]
  · rw [← hreader] at hphase
    exact phase_remainingReader hphase _
  · exact (congrArg Reader.directRead hreader).trans hdirect

/-! ## Whole runs -/

/-- The payload that is still to be returned: what the multi-reader has left and what is in
the stream to come. -/
structure Pending (c : VisionConn) (n : Network) (payload : Bytes) : Prop where
  conn : c.conn = .inner
  direct : c.directRead = false
  ahead : ∃ ahead, Phase c.reader (n.inner.flatMap Subtype.val) ahead ∧
    payload = (c.remainingReader.getD []).flatten ++ ahead

theorem Stream.bytes_ne_nil (s : Stream) : s.bytes ≠ [] := by
  intro h
  have hl := congrArg List.length h
  rw [Stream.bytes, List.length_append, s.uuid.property] at hl
  simp at hl

/-- At the end of the stream nothing is still to be returned. -/
theorem payload_of_end {r : Reader} {payload : Bytes} (h : Phase r [] payload) : payload = [] := by
  generalize hb : ([] : Bytes) = bytes at h
  cases h with
  | fresh s _ _ _ _ => exact absurd hb.symm s.bytes_ne_nil
  | framed a _ _ _ _ hover =>
      obtain ⟨hcontent, hrest⟩ := List.append_eq_nil_iff.mp hb.symm
      obtain ⟨hpadding, hrest⟩ := List.append_eq_nil_iff.mp hrest
      cases hr : a.rest with
      | raw tail => exact absurd ⟨hcontent, hpadding, by rw [hr]; rfl⟩ hover
      | frames continued last tail =>
          rw [hr] at hrest
          obtain ⟨f, rest', hbytes, _⟩ := Rest.frames_cases continued last tail
          rw [hbytes] at hrest
          cases hrest
  | raw _ _ _ _ => rfl

theorem pending_drained {c : VisionConn} {n : Network} {payload b : Bytes} {parts : List Bytes}
    (h : Pending c n payload) (hb : (c.remainingReader.getD []).flatten = b ++ parts.flatten) :
    ∃ payload', payload = b ++ payload' ∧
      Pending { c with remainingReader := some parts } n payload' := by
  obtain ⟨hconn, hdirect, ahead, hphase, hpay⟩ := h
  refine ⟨parts.flatten ++ ahead, by rw [hpay, hb, List.append_assoc], hconn, hdirect, ahead, ?_,
    rfl⟩
  exact phase_remainingReader hphase _

theorem inner_receive {n n' : Network} {size : Nat} (hs : 0 < size) {data : Bytes}
    (h : n.receive .inner size = some (data, n')) :
    data ≠ [] ∧ data.length ≤ size ∧
      n.inner.flatMap Subtype.val = data ++ n'.inner.flatMap Subtype.val := by
  obtain ⟨⟨d, rest⟩, hr, he⟩ := Option.map_eq_some_iff.mp h
  obtain ⟨rfl, rfl⟩ := Prod.mk.inj he
  exact receive_eq hs hr

/-- Outside the frames bytes are read as they come. -/
theorem phase_passed {r : Reader} {b later payload : Bytes} (h : Phase r (b ++ later) payload)
    (hw : r.withinPaddingBuffers = false) : payload = b ++ later ∧ Phase r later later := by
  generalize hahead : b ++ later = ahead at h
  cases h with
  | fresh s _ _ _ hw' => rw [hw] at hw'; cases hw'
  | framed a _ _ _ hw' _ => rw [hw] at hw'; cases hw'
  | raw _ hrc hrp _ => exact ⟨rfl, .raw later hrc hrp hw⟩

/-- One read returns the next bytes of the payload, or the end when there are none. -/
structure Reads (o : Outcome) (payload : Bytes) : Prop where
  step : (∃ b payload', o.result = .bytes b ∧ b ≠ [] ∧ payload = b ++ payload' ∧
      Pending o.after o.network payload') ∨
    o.result = .eof ∧ payload = [] ∧ Pending o.after o.network []

/-- The induction is on the bytes still to come, since a read that brings no content is
followed by another. -/
theorem read_clean {c : VisionConn} {n : Network} {t : Target} {payload : Bytes}
    (h : Pending c n payload) (ht : xrayChunkSize < t.p.length)
    (hc : ∀ pull ∈ (c.read n t).pulls, Clean pull.before pull.buffer) :
    Reads (c.read n t) payload := by
  induction hl : n.left using Nat.strong_induction_on generalizing c n t payload with
  | _ k ih =>
      rcases drain_eq c (Nat.zero_lt_of_lt ht) with ⟨hd, hflat⟩ | ⟨b, parts, hne, hd, hflat⟩
      · obtain ⟨hconn, hdirect, ahead, hphase, hpay⟩ := h
        rw [hflat, List.nil_append] at hpay
        subst hpay
        have hphase := phase_remainingReader hphase none
        cases hr : n.receive .inner t.size with
        | none =>
            have hinner : n.inner = [] := by
              have := Option.map_eq_none_iff.mp hr
              unfold receive at this
              split at this
              · assumption
              · cases this
            rw [hinner] at hphase
            have hend := payload_of_end hphase
            subst hend
            rw [read_ended hd hdirect (by rw [← hr, ← hconn])]
            exact ⟨Or.inr ⟨rfl, rfl, hconn, hdirect, [], by rwa [hinner], rfl⟩⟩
        | some r =>
            obtain ⟨data, n'⟩ := r
            have hless := left_receive t.size_pos hr
            obtain ⟨hne, hfit, hstream⟩ := inner_receive t.size_pos hr
            rw [hstream] at hphase
            have hr' : n.receive { c with remainingReader := none : VisionConn }.conn t.size =
                some (data, n') := by rw [← hr, ← hconn]
            have hslice : t.slice data = ⟨data, t.p.drop data.length ++ t.spare⟩ := if_pos ht
            by_cases hfed : c.withinPaddingBuffers = true ∨ 0 < c.numberOfPacketToFilter
            · have hfirst := hc _ (pull_mem hd hdirect hr')
              rw [hslice] at hfirst
              obtain ⟨c2, parts, payload', hf, hparts, hpay, hphase', hconn', hdirect'⟩ :=
                feed_clean hphase hfirst hfed
              rw [← hslice] at hf
              rw [read_fed hd hdirect hr' hfed hf] at hc ⊢
              have hrest := ih n'.left (hl ▸ hless) (c := c2) (n := n') (t := t.fill data)
                ⟨hconn'.trans hconn, hdirect'.trans hdirect, payload', hphase', by
                  rw [hparts, Option.getD_some]⟩ (by rw [Target.length_fill hfit]; exact ht)
                (fun pull hp => hc pull (List.mem_cons_of_mem _ hp)) rfl
              rw [hpay]
              exact ⟨hrest.step⟩
            · rw [read_passed hd hdirect hr' hfed]
              have hbytes : (t.fill data).p.take data.length = data := by
                rw [Target.fill, if_pos ht]
                exact List.take_left
              have hw : c.withinPaddingBuffers = false :=
                Bool.eq_false_iff.mpr fun hw => hfed (Or.inl hw)
              obtain ⟨hpay, hphase'⟩ := phase_passed hphase hw
              rw [hbytes, hpay]
              exact ⟨Or.inl ⟨data, _, rfl, hne, rfl, hconn, hdirect, _, hphase', rfl⟩⟩
      · rw [read_drained n hd]
        obtain ⟨payload', hpay, hpending⟩ := pending_drained h hflat
        exact ⟨Or.inl ⟨b, payload', rfl, hne, hpay, hpending⟩⟩

/-- Successive reads. -/
def readAll (c : VisionConn) (n : Network) : List Target → List Outcome
  | [] => []
  | t :: rest => c.read n t :: readAll (c.read n t).after (c.read n t).network rest

def delivered (os : List Outcome) : Bytes :=
  os.flatMap fun o => match o.result with
    | .bytes b => b
    | _ => []

/-- Every read returns bytes or the end, the bytes are those of the payload in order, and
none is missing at the end or after as many reads as the payload has bytes. -/
structure Unpadded (payload : Bytes) (os : List Outcome) : Prop where
  settled : ∀ o ∈ os, o.result = .eof ∨ ∃ b, o.result = .bytes b
  inOrder : delivered os <+: payload
  whole : payload.length ≤ os.length ∨ (∃ o ∈ os, o.result = .eof) → delivered os = payload

theorem readAll_clean {c : VisionConn} {n : Network} {payload : Bytes} {targets : List Target}
    (h : Pending c n payload) (ht : ∀ t ∈ targets, xrayChunkSize < t.p.length)
    (hc : ∀ o ∈ readAll c n targets, ∀ pull ∈ o.pulls, Clean pull.before pull.buffer) :
    ∃ payload', payload = delivered (readAll c n targets) ++ payload' ∧
      (∀ o ∈ readAll c n targets, o.result = .eof ∨ ∃ b, o.result = .bytes b) ∧
      (payload' = [] ∨ targets.length ≤ (delivered (readAll c n targets)).length ∧
        ∀ o ∈ readAll c n targets, o.result ≠ .eof) := by
  induction targets generalizing c n payload with
  | nil => exact ⟨payload, rfl, by simp [readAll], Or.inr ⟨le_rfl, by simp [readAll]⟩⟩
  | cons t rest ih =>
      rw [readAll, List.forall_mem_cons] at hc
      rw [List.forall_mem_cons] at ht
      have hdelivered : delivered (readAll c n (t :: rest)) =
          delivered [c.read n t] ++
            delivered (readAll (c.read n t).after (c.read n t).network rest) := by
        rw [readAll, delivered, delivered, delivered, List.flatMap_cons, List.flatMap_singleton]
      rw [hdelivered, readAll]
      rcases (read_clean h ht.1 hc.1).step with
        ⟨b, p1, hres, hne, hpay, hnext⟩ | ⟨hres, hpay, hnext⟩
      · have hb : delivered [c.read n t] = b := by simp [delivered, hres]
        obtain ⟨p2, hp2, hsettled, hrest⟩ := ih hnext ht.2 hc.2
        refine ⟨p2, ?_, ?_, ?_⟩
        · rw [hb, hpay, List.append_assoc, ← hp2]
        · rw [List.forall_mem_cons]
          exact ⟨Or.inr ⟨b, hres⟩, hsettled⟩
        · refine hrest.imp_right fun ⟨hlen, heof⟩ => ?_
          have := List.length_pos_iff.mpr hne
          rw [List.length_append, List.length_cons, hb, List.forall_mem_cons]
          exact ⟨by omega, by rw [hres]; simp, heof⟩
      · have hb : delivered [c.read n t] = [] := by simp [delivered, hres]
        obtain ⟨p2, hp2, hsettled, _⟩ := ih hnext ht.2 hc.2
        refine ⟨p2, ?_, ?_, Or.inl (List.append_eq_nil_iff.mp hp2.symm).2⟩
        · rw [hb, hpay, List.nil_append]
          exact hp2
        · rw [List.forall_mem_cons]
          exact ⟨Or.inl hres, hsettled⟩

theorem length_readAll (c : VisionConn) (n : Network) (targets : List Target) :
    (readAll c n targets).length = targets.length := by
  induction targets generalizing c n with
  | nil => rfl
  | cons t rest ih => rw [readAll, List.length_cons, List.length_cons, ih]

theorem unpadded_of_clean (s : Stream) {input rawIn : Bytes} {chunks : List Chunk}
    (hs : chunks.flatMap Subtype.val = s.bytes) {targets : List Target}
    (ht : ∀ t ∈ targets, xrayChunkSize < t.p.length)
    (hc : ∀ o ∈ readAll (newVisionConn s.uuid input rawIn) { inner := chunks } targets,
      ∀ pull ∈ o.pulls, Clean pull.before pull.buffer) :
    Unpadded s.payload
      (readAll (newVisionConn s.uuid input rawIn) { inner := chunks } targets) := by
  have hpending : Pending (newVisionConn s.uuid input rawIn) { inner := chunks } s.payload :=
    ⟨rfl, rfl, s.payload, by simp only [hs]; exact .fresh s rfl rfl rfl rfl, rfl⟩
  obtain ⟨payload', hpay, hsettled, hend⟩ := readAll_clean hpending ht hc
  refine ⟨hsettled, hpay ▸ List.prefix_append _ _, fun hwhole => ?_⟩
  rcases hend with hnil | ⟨hlen, heof⟩
  · rw [hnil, List.append_nil] at hpay
    exact hpay.symm
  · rcases hwhole with hle | ⟨o, ho, he⟩
    · have hl := congrArg List.length hpay
      rw [List.length_append] at hl
      rw [length_readAll] at hle
      have hnil : payload' = [] := List.length_eq_zero_iff.mp (by omega)
      rw [hnil, List.append_nil] at hpay
      exact hpay.symm
    · exact absurd he (heof o ho)

/-- An id of sevens, one frame with one byte, and one raw byte. -/
def sample : Stream where
  uuid := ⟨List.replicate 16 7, rfl⟩
  continued := []
  last := ⟨[0x48], [], by decide, by decide⟩
  raw := [0x49]

/-- A buffer of 8193 bytes. -/
def roomy : Target := { p := List.replicate 8193 0 }

theorem roomy_large : xrayChunkSize < roomy.p.length := by
  rw [roomy, List.length_replicate]
  decide

theorem sample_unPadding (behind : Bytes) :
    ((newVisionConn sample.uuid [] []).unPadding ⟨sample.bytes, behind⟩).1 =
      [⟨[0x48], [0x49] ++ behind⟩, ⟨[0x49], behind⟩] := by
  have hannounced : (newVisionConn sample.uuid [] []).announced sample.bytes = true := by decide
  have hloop : (newVisionConn sample.uuid [] []).unPadding ⟨sample.bytes, behind⟩ =
      (atAhead (newVisionConn sample.uuid [] []) ⟨[], [], sample.rest⟩).unPaddingLoop behind
        (sample.last.header (Rest.raw [0x49]).command ++ [0x48, 0x49]) := by
    rw [VisionConn.unPadding, if_pos hannounced]
    rfl
  have hrest : sample.rest.command ≠ commandPaddingEnd := by decide
  have hcontent := loop_content (newVisionConn sample.uuid [] [])
    (a := ⟨[0x48], [], .raw [0x49]⟩) (by simp) behind (b := [0x48, 0x49]) (by simp)
  have hraw := loop_raw (newVisionConn sample.uuid [] []) [0x49] behind (b := [0x49])
    (by simp)
  rw [hloop, loop_header _ hrest]
  refine (congrArg Prod.fst hcontent).trans ?_
  exact congrArg (fun r => (⟨[0x48], [0x49] ++ behind⟩ :: r.1 : List Slice)) hraw

theorem sample_clean (behind : Bytes) :
    Clean (newVisionConn sample.uuid [] []) ⟨sample.bytes, behind⟩ := by
  have hheader : endsInHeader 0 (sample.bytes.drop 16) = false := by
    rw [endsInHeader]
    decide
  constructor
  · exact fun _ _ => ⟨show 21 ≤ sample.bytes.length by decide, hheader⟩
  · intro h
    cases h
  · intro h
    cases h
  · intro _ s hs hover
    rw [sample_unPadding] at hs
    have hlen : s.bytes.length = 1 := by
      simp only [List.mem_cons, List.not_mem_nil, or_false] at hs
      rcases hs with rfl | rfl <;> rfl
    have := hover.1
    omega

/-! ## Reads of one byte -/

/-- A reader that lets bytes pass: no frame is being read and nothing waits. -/
structure Passing (c : VisionConn) : Prop where
  conn : c.conn = .inner
  direct : c.directRead = false
  content : c.remainingContent = -1
  padding : c.remainingPadding = -1
  empty : (c.remainingReader.getD []).flatten = []

theorem feed_byte {c : VisionConn} (h : Passing c) (b : UInt8) (behind : Bytes) :
    ∃ c', c.feed ⟨[b], behind⟩ = (none, c') ∧ c'.remainingReader = some [[b]] ∧
      c'.conn = .inner ∧ c'.directRead = false ∧ c'.remainingContent = -1 ∧
      c'.remainingPadding = -1 := by
  have hframeless : c.frameless = true := by simp [VisionConn.frameless, h.content, h.padding]
  have hannounced : c.announced [b] = false := by simp [VisionConn.announced]
  have hun : c.unPadding ⟨[b], behind⟩ = ([⟨[b], behind⟩], c) := by
    simp [VisionConn.unPadding, hannounced, hframeless]
  have hrc := h.content
  have hrp := h.padding
  have hsettle : c.settle [⟨[b], behind⟩] =
      (some [⟨[b], behind⟩], { c with withinPaddingBuffers := false }) := by
    rw [VisionConn.settle, if_neg (by omega), if_neg (by omega)]
  obtain ⟨c', hfilter⟩ := filterAll_isSome { c with withinPaddingBuffers := false }
    [⟨[b], behind⟩] fun _ s hs hover => by
      rw [List.mem_singleton.mp hs] at hover
      exact absurd hover.1 (by simp)
  obtain ⟨hreader, hconn⟩ := filterAll_same hfilter
  refine ⟨{ c' with remainingReader := some [[b]] }, ?_, rfl, hconn.trans h.conn,
    (congrArg Reader.directRead hreader).trans h.direct,
    (congrArg Reader.remainingContent hreader).trans h.content,
    (congrArg Reader.remainingPadding hreader).trans h.padding⟩
  simp only [VisionConn.feed, hun, hsettle, hfilter]
  rfl

/-- A single byte is returned as it is. -/
theorem read_byte {c : VisionConn} (h : Passing c) (b : UInt8) (rest : List Chunk) {t : Target}
    (ht : xrayChunkSize < t.p.length) :
    (c.read { inner := ⟨[b], by simp⟩ :: rest } t).result = .bytes [b] ∧
      Passing (c.read { inner := ⟨[b], by simp⟩ :: rest } t).after ∧
      (c.read { inner := ⟨[b], by simp⟩ :: rest } t).network = { inner := rest } ∧
      (c.read { inner := ⟨[b], by simp⟩ :: rest } t).pulls =
        [⟨{ c with remainingReader := none }, t, t.slice [b]⟩] := by
  have hsize : t.size = t.p.length := if_pos ht
  have hpos : 0 < t.p.length := Nat.zero_lt_of_lt ht
  have hd : c.drain t.p.length = (none, { c with remainingReader := none }) := by
    rcases drain_eq c hpos with ⟨hd, _⟩ | ⟨d, parts, hne, _, hflat⟩
    · exact hd
    · rw [h.empty] at hflat
      exact absurd (List.append_eq_nil_iff.mp hflat.symm).1 hne
  have hr : Network.receive { inner := ⟨[b], by simp⟩ :: rest }
      { c with remainingReader := none : VisionConn }.conn t.size =
        some ([b], { inner := rest }) := by
    have htake : [b].take t.size = [b] := List.take_of_length_le (by rw [hsize]; exact hpos)
    have hdrop : [b].drop t.size = [] := List.drop_of_length_le (by rw [hsize]; exact hpos)
    change Network.receive _ c.conn t.size = _
    rw [h.conn]
    simp [Network.receive, receive, leave, htake, hdrop]
  have hpassing : Passing { c with remainingReader := none } :=
    ⟨h.conn, h.direct, h.content, h.padding, rfl⟩
  have hslice : t.slice [b] = ⟨[b], t.p.drop 1 ++ t.spare⟩ := if_pos ht
  by_cases hfed : c.withinPaddingBuffers = true ∨ 0 < c.numberOfPacketToFilter
  · obtain ⟨c', hf, hparts, hconn, hdirect, hcontent, hpadding⟩ :=
      feed_byte hpassing b (t.p.drop 1 ++ t.spare)
    rw [← hslice] at hf
    have hlen : (t.fill [b]).p.length = t.p.length :=
      Target.length_fill (by rw [hsize]; exact hpos)
    have hd' : c'.drain (t.fill [b]).p.length =
        (some [b], { c' with remainingReader := some [[]] }) := by
      have hn : ¬ t.p.length = 0 := by omega
      have htake : [b].take t.p.length = [b] := List.take_of_length_le hpos
      have hdrop : [b].drop t.p.length = [] := List.drop_of_length_le hpos
      simp [VisionConn.drain, hparts, hlen, hn, htake, hdrop]
    rw [read_fed hd h.direct hr hfed hf, read_drained _ hd']
    exact ⟨rfl, ⟨hconn, hdirect, hcontent, hpadding, rfl⟩, rfl, rfl⟩
  · rw [read_passed hd h.direct hr hfed]
    have hbytes : (t.fill [b]).p.take 1 = [b] := by
      rw [Target.fill, if_pos ht]
      rfl
    exact ⟨congrArg Result.bytes hbytes, hpassing, rfl, rfl⟩

/-- Behind the padding such a read is clean. -/
theorem clean_byte {c : VisionConn} (h : Passing c) (hw : c.withinPaddingBuffers = false)
    (b : UInt8) (behind : Bytes) : Clean c ⟨[b], behind⟩ := by
  have hframeless : c.frameless = true := by simp [VisionConn.frameless, h.content, h.padding]
  have hannounced : c.announced [b] = false := by simp [VisionConn.announced]
  refine ⟨fun _ hwithin => ?_, fun hframed => ?_, fun _ _ => hannounced, fun _ s hs hover => ?_⟩
  · rw [hw] at hwithin
    cases hwithin
  · rw [hframeless] at hframed
    cases hframed
  · simp only [VisionConn.unPadding, hannounced, hframeless, Bool.false_eq_true, if_false, if_true,
      List.mem_singleton] at hs
    subst hs
    exact absurd hover.1 (by simp)

/-! ## A stream in two reads -/

/-- The sample up to its raw byte. -/
def sampleFront : Bytes := sample.uuid.val ++ sample.last.encode commandPaddingEnd

theorem sampleFront_ne_nil : sampleFront ≠ [] := List.cons_ne_nil _ _

theorem front_unPadding (behind : Bytes) :
    (newVisionConn sample.uuid [] []).unPadding ⟨sampleFront, behind⟩ =
      ([⟨[0x48], behind⟩], atAhead (newVisionConn sample.uuid [] []) ⟨[], [], .raw []⟩) := by
  have hannounced : (newVisionConn sample.uuid [] []).announced sampleFront = true := by decide
  have hloop : (newVisionConn sample.uuid [] []).unPadding ⟨sampleFront, behind⟩ =
      (atAhead (newVisionConn sample.uuid [] []) ⟨[], [], sample.rest⟩).unPaddingLoop behind
        (sample.last.header (Rest.raw []).command ++ [0x48]) := by
    rw [VisionConn.unPadding, if_pos hannounced]
    rfl
  have hrest : sample.rest.command ≠ commandPaddingEnd := by decide
  have hcontent := loop_content (newVisionConn sample.uuid [] [])
    (a := ⟨[0x48], [], .raw []⟩) (by simp) behind (b := [0x48]) (by simp)
  rw [hloop, loop_header _ hrest]
  refine hcontent.trans ?_
  have hnil : ∀ c : VisionConn, c.unPaddingLoop behind [] = ([], c) := fun c => loop_nil c behind
  simp [hnil]

/-- The reader behind the End frame of the sample. -/
def frontRead : VisionConn :=
  { newVisionConn sample.uuid [] [] with
    withinPaddingBuffers := false
    remainingContent := -1
    remainingPadding := -1
    currentCommand := commandPaddingEnd
    numberOfPacketToFilter := 7 }

theorem front_feed (behind : Bytes) :
    (newVisionConn sample.uuid [] []).feed ⟨sampleFront, behind⟩ =
      (none, { frontRead with remainingReader := some [[0x48]] }) := by
  rw [VisionConn.feed, front_unPadding]
  rfl

theorem front_clean (behind : Bytes) :
    Clean (newVisionConn sample.uuid [] []) ⟨sampleFront, behind⟩ := by
  have hheader : endsInHeader 0 (sampleFront.drop 16) = false := by
    rw [endsInHeader]
    decide
  refine ⟨fun _ _ => ⟨show 21 ≤ sampleFront.length by decide, hheader⟩, nofun, nofun,
    fun _ s hs hover => ?_⟩
  rw [front_unPadding, List.mem_singleton] at hs
  subst hs
  exact absurd hover.1 (by simp)

theorem front_read (later : List Chunk) :
    (newVisionConn sample.uuid [] []).read
        { inner := ⟨sampleFront, sampleFront_ne_nil⟩ :: later } roomy =
      ⟨.bytes [0x48], [⟨newVisionConn sample.uuid [] [], roomy, roomy.slice sampleFront⟩],
        { frontRead with remainingReader := some [[]] }, { inner := later }⟩ := by
  have hroomy := roomy_large
  have hchunk : xrayChunkSize = 8192 := rfl
  have hsize : roomy.size = roomy.p.length := if_pos roomy_large
  have hfront : sampleFront.length = 22 := rfl
  have hr : Network.receive { inner := ⟨sampleFront, sampleFront_ne_nil⟩ :: later }
      (newVisionConn sample.uuid [] []).conn roomy.size =
        some (sampleFront, { inner := later }) := by
    have htake : sampleFront.take roomy.size = sampleFront := List.take_of_length_le (by omega)
    have hdrop : sampleFront.drop roomy.size = [] := List.drop_of_length_le (by omega)
    change Network.receive _ .inner roomy.size = _
    simp [Network.receive, receive, leave, htake, hdrop]
  have hslice : roomy.slice sampleFront =
      ⟨sampleFront, roomy.p.drop sampleFront.length ++ roomy.spare⟩ := if_pos roomy_large
  have hf := front_feed (roomy.p.drop sampleFront.length ++ roomy.spare)
  rw [← hslice] at hf
  have hd : VisionConn.drain { frontRead with remainingReader := some [[0x48]] }
      (roomy.fill sampleFront).p.length =
        (some [0x48], { frontRead with remainingReader := some [[]] }) := by
    have hlen : (roomy.fill sampleFront).p.length = roomy.p.length :=
      Target.length_fill (by omega)
    have hpos : ¬ roomy.p.length = 0 := by omega
    have htake : [(0x48 : UInt8)].take roomy.p.length = [0x48] :=
      List.take_of_length_le (by simp only [List.length_singleton]; omega)
    have hdrop : [(0x48 : UInt8)].drop roomy.p.length = [] :=
      List.drop_of_length_le (by simp only [List.length_singleton]; omega)
    simp [VisionConn.drain, hlen, hpos, htake, hdrop]
  rw [read_fed rfl rfl hr (Or.inl rfl) hf, read_drained _ hd]

/-- The raw byte comes in a read of its own. -/
theorem sample_unpadded : Unpadded sample.payload (readAll (newVisionConn sample.uuid [] [])
    { inner := [⟨sampleFront, sampleFront_ne_nil⟩, ⟨[0x49], List.cons_ne_nil _ _⟩] }
    [roomy, roomy]) := by
  have hslice : ∀ data, roomy.slice data = ⟨data, roomy.p.drop data.length ++ roomy.spare⟩ :=
    fun _ => if_pos roomy_large
  have hpassing : Passing { frontRead with remainingReader := some [[]] } :=
    ⟨rfl, rfl, rfl, rfl, rfl⟩
  obtain ⟨-, -, -, hpulls⟩ := read_byte hpassing 0x49 [] roomy_large
  refine unpadded_of_clean sample rfl (fun t ht => ?_) fun o ho pull hp => ?_
  · rcases List.mem_pair.mp ht with rfl | rfl <;> exact roomy_large
  · simp only [readAll, front_read, List.mem_cons, List.not_mem_nil, or_false] at ho
    rcases ho with rfl | rfl
    · obtain rfl := List.mem_singleton.mp hp
      exact (hslice _).symm ▸ front_clean _
    · rw [hpulls] at hp
      obtain rfl := List.mem_singleton.mp hp
      exact (hslice _).symm ▸ clean_byte ⟨rfl, rfl, rfl, rfl, rfl⟩ rfl 0x49 _

/-- One byte to a read. -/
def singly (b : Bytes) : List Chunk := b.map fun x => ⟨[x], by simp⟩

theorem flatMap_singly (b : Bytes) : (singly b).flatMap Subtype.val = b := by
  induction b with
  | nil => rfl
  | cons x rest ih =>
      rw [singly, List.map_cons, List.flatMap_cons]
      exact congrArg (x :: ·) ih

theorem delivered_singly {c : VisionConn} (h : Passing c) (b : Bytes) {t : Target}
    (ht : xrayChunkSize < t.p.length) :
    delivered (readAll c { inner := singly b } (List.replicate b.length t)) = b := by
  induction b generalizing c with
  | nil => rfl
  | cons x rest ih =>
      obtain ⟨hres, hafter, hnet, -⟩ := read_byte h x (singly rest) ht
      have hsingly : singly (x :: rest) = ⟨[x], by simp⟩ :: singly rest := rfl
      rw [List.length_cons, List.replicate_succ, readAll, hsingly, hnet]
      change (match (c.read _ t).result with
        | .bytes b => b
        | _ => []) ++ delivered (readAll (c.read _ t).after { inner := singly rest }
          (List.replicate rest.length t)) = _
      rw [hres, ih hafter]
      rfl

theorem Rest.length_payload_le (r : Rest) : r.payload.length ≤ r.bytes.length := by
  cases r with
  | raw tail => exact le_rfl
  | frames continued last tail =>
      induction continued with
      | nil =>
          simp only [Rest.payload, Rest.bytes, Frame.encode, List.length_append, List.length_cons,
            List.flatMap_nil, List.length_nil]
          omega
      | cons f continued ih =>
          simp only [Rest.payload, Rest.bytes, List.flatMap_cons, List.length_append,
            Frame.encode, List.length_cons] at ih ⊢
          omega

/-- No stream gets through one-byte reads: the user's id and the headers are returned too. -/
theorem singly_not_unpadded (s : Stream) {input rawIn : Bytes} {t : Target}
    (ht : xrayChunkSize < t.p.length) :
    ¬ Unpadded s.payload (readAll (newVisionConn s.uuid input rawIn)
      { inner := singly s.bytes } (List.replicate s.bytes.length t)) := by
  intro h
  have hlen : s.payload.length < s.bytes.length := by
    have := s.rest.length_payload_le
    rw [Stream.payload, Stream.bytes, List.length_append, s.uuid.property]
    omega
  have hwhole := h.whole (Or.inl (by rw [length_readAll, List.length_replicate]; omega))
  rw [delivered_singly ⟨rfl, rfl, rfl, rfl, rfl⟩ s.bytes ht] at hwhole
  rw [hwhole] at hlen
  exact absurd hlen (lt_irrefl _)

/-- The first byte of the id is returned when it arrives alone. -/
theorem lone_byte_returned :
    ¬ ∀ (s : Stream) (input rawIn : Bytes) (chunks : List Chunk) (targets : List Target),
      chunks.flatMap Subtype.val = s.bytes → (∀ t ∈ targets, xrayChunkSize < t.p.length) →
        Unpadded s.payload
          (readAll (newVisionConn s.uuid input rawIn) { inner := chunks } targets) := by
  intro h
  refine singly_not_unpadded sample roomy_large
    (h sample [] [] _ _ (flatMap_singly _) fun t ht => ?_)
  rw [List.eq_of_mem_replicate ht]
  exact roomy_large

end DshClashProxy.Core.VisionFrames
