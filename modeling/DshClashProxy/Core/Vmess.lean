import DshClashProxy.Core.Transports

/-!
# The VMess body stream

Each chunk is sealed under a nonce that starts with the chunk counter in two bytes. The
stream round-trips as long as the counter fits, and the writer throws at the first chunk
where it does not.
-/
namespace DshClashProxy.Core.Vmess

open Js Lib.ByteSource Core.Transports

/-- A key or an IV of the body stream. -/
abbrev Block := {b : Bytes // b.length = 16}

/-- AES-128-GCM as the Node ciphers offer it: ciphertext and tag from `encrypt`, and
`decrypt` fails when the tag does not fit. -/
structure Gcm where
  encrypt : Block → Bytes → Bytes → Bytes × Bytes
  decrypt : Block → Bytes → Bytes → Bytes → Option Bytes
  decrypt_encrypt : ∀ key nonce plaintext,
    decrypt key nonce (encrypt key nonce plaintext).1 (encrypt key nonce plaintext).2 =
      some plaintext
  length_ciphertext : ∀ key nonce plaintext,
    (encrypt key nonce plaintext).1.length = plaintext.length
  length_tag : ∀ key nonce plaintext, (encrypt key nonce plaintext).2.length = 16

variable (gcm : Gcm)

def gcmSeal (key : Block) (nonce plaintext : Bytes) : Bytes :=
  (gcm.encrypt key nonce plaintext).1 ++ (gcm.encrypt key nonce plaintext).2

def gcmOpen (key : Block) (nonce sealed : Bytes) : Option Bytes :=
  let cut := sealed.place (sealed.length - 16)
  gcm.decrypt key nonce (sealed.take cut) (sealed.drop cut)

theorem length_gcmSeal (key : Block) (nonce plaintext : Bytes) :
    (gcmSeal gcm key nonce plaintext).length = plaintext.length + 16 := by
  rw [gcmSeal, List.length_append, gcm.length_ciphertext, gcm.length_tag]

theorem gcmOpen_gcmSeal (key : Block) (nonce plaintext : Bytes) :
    gcmOpen gcm key nonce (gcmSeal gcm key nonce plaintext) = some plaintext := by
  have hcut : (gcmSeal gcm key nonce plaintext).place
      ((gcmSeal gcm key nonce plaintext).length - 16) =
      (gcm.encrypt key nonce plaintext).1.length := by
    rw [length_gcmSeal, gcm.length_ciphertext, Bytes.place]
    split <;> omega
  rw [gcmOpen, hcut, gcmSeal, List.take_left, List.drop_left, gcm.decrypt_encrypt]

/-- `writeUInt16BE(count)` throws from 65536 on. -/
def chunkNonce (iv : Block) (count : Nat) : Option Bytes :=
  if count < 65536 then some (Bytes.uint16BE count ++ iv.val.subarray 2 12) else none

/-! ## Writer -/

structure VmessChunkWriter where
  key : Block
  iv : Block
  count : Nat := 0
  /-- What the sink has received. -/
  sink : Bytes := []

/-- The parts of at most `0x3fff` bytes into which a write is cut. -/
def parts : Bytes → List Bytes
  | [] => []
  | b :: rest => (b :: rest.take 0x3ffe) :: parts (rest.drop 0x3ffe)
termination_by plaintext => plaintext.length
decreasing_by simp only [List.length_drop, List.length_cons]; omega

/-- Seal and send one part; `none` is a throw, which leaves the counter advanced. -/
def VmessChunkWriter.writePart (w : VmessChunkWriter) (part : Bytes) :
    VmessChunkWriter × Option Unit :=
  match chunkNonce w.iv w.count with
  | none => ({ w with count := w.count + 1 }, none)
  | some nonce =>
      let sealed := gcmSeal gcm w.key nonce part
      if sealed.length < 65536 then
        ({ w with count := w.count + 1,
                  sink := w.sink ++ (Bytes.uint16BE sealed.length ++ sealed) }, some ())
      else ({ w with count := w.count + 1 }, none)

def VmessChunkWriter.writeParts (w : VmessChunkWriter) :
    List Bytes → VmessChunkWriter × Option Unit
  | [] => (w, some ())
  | part :: rest =>
      match w.writePart gcm part with
      | (w, none) => (w, none)
      | (w, some ()) => w.writeParts rest

def VmessChunkWriter.write (w : VmessChunkWriter) (plaintext : Bytes) :
    VmessChunkWriter × Option Unit := w.writeParts gcm (parts plaintext)

/-- The zero size that ends the stream. -/
def VmessChunkWriter.end (w : VmessChunkWriter) : VmessChunkWriter :=
  { w with sink := w.sink ++ [0, 0] }

/-- Successive writes, up to the first that throws. -/
def VmessChunkWriter.writeAll (w : VmessChunkWriter) :
    List Bytes → VmessChunkWriter × Option Unit
  | [] => (w, some ())
  | s :: rest =>
      match w.write gcm s with
      | (w, none) => (w, none)
      | (w, some ()) => w.writeAll rest

/-! ## Reader -/

structure VmessChunkReader where
  key : Block
  iv : Block
  count : Nat := 0

/-- One chunk, or `some none` at the end of the stream. The outer `none` is a rejection or
a read that never settles. -/
def VmessChunkReader.readChunk (source : Source UInt8) :
    VmessChunkReader × source.State → Option (Option Bytes × VmessChunkReader × source.State)
  | (r, s) => do
      let (sizeHeader, s) ← source.read s 2
      let size ← Bytes.readUInt16BE sizeHeader 0
      if size = 0 then return (none, r, s)
      let (sealed, s) ← source.read s size
      let nonce ← chunkNonce r.iv r.count
      let chunk ← gcmOpen gcm r.key nonce sealed
      return (some chunk, { r with count := r.count + 1 }, s)

/-- The reader yields non-empty chunks that make up the plaintext, then null. -/
def ReadsBack (key iv : Block) (source : Source UInt8) (s : source.State) (plaintext : Bytes) :
    Prop :=
  ∃ chunks, Yields (VmessChunkReader.readChunk gcm source) (⟨key, iv, 0⟩, s) chunks ∧
    (∀ c ∈ chunks, c ≠ []) ∧ chunks.flatten = plaintext

/-- What is written is read back, however the transport cuts it. -/
structure RoundTrips (key iv : Block) (strings : List Bytes) : Prop where
  writes : (VmessChunkWriter.writeAll gcm { key, iv } strings).2 = some ()
  overWs : ∀ fragments : List Bytes,
    fragments.flatten = (VmessChunkWriter.writeAll gcm { key, iv } strings).1.end.sink →
      ReadsBack gcm key iv IterableSource.source (iterableSource fragments) strings.flatten
  overTcp : ∀ schedule : List (Option Bytes),
    (schedule.filterMap id).flatten =
        (VmessChunkWriter.writeAll gcm { key, iv } strings).1.end.sink →
      ReadsBack gcm key iv OpenSocket.source { schedule } strings.flatten

/-! ## Parts -/

theorem flatten_parts (plaintext : Bytes) : (parts plaintext).flatten = plaintext := by
  induction plaintext using parts.induct with
  | case1 => simp [parts]
  | case2 b rest ih =>
      rw [parts, List.flatten_cons, ih, List.cons_append, List.take_append_drop]

theorem parts_sized (plaintext : Bytes) :
    ∀ part ∈ parts plaintext, part ≠ [] ∧ part.length ≤ 0x3fff := by
  induction plaintext using parts.induct with
  | case1 => simp [parts]
  | case2 b rest ih =>
      intro part hp
      rw [parts, List.mem_cons] at hp
      rcases hp with rfl | hp
      · refine ⟨List.cons_ne_nil _ _, ?_⟩
        rw [List.length_cons, List.length_take]
        omega
      · exact ih part hp

theorem length_parts (plaintext : Bytes) :
    (parts plaintext).length = (plaintext.length + 0x3ffe) / 0x3fff := by
  induction plaintext using parts.induct with
  | case1 => simp [parts]
  | case2 b rest ih =>
      rw [parts, List.length_cons, ih, List.length_drop, List.length_cons]
      omega

theorem flatten_flatMap_parts (strings : List Bytes) :
    (strings.flatMap parts).flatten = strings.flatten := by
  induction strings with
  | nil => rfl
  | cons s rest ih =>
      rw [List.flatMap_cons, List.flatten_append, flatten_parts, ih, List.flatten_cons]

/-- The number of chunks a sequence of writes takes. -/
def chunkCount : List Bytes → Nat
  | [] => 0
  | s :: rest => (s.length + 0x3ffe) / 0x3fff + chunkCount rest

theorem chunkCount_cons (s : Bytes) (rest : List Bytes) :
    chunkCount (s :: rest) = (parts s).length + chunkCount rest := by
  rw [chunkCount, length_parts]

theorem length_flatMap_parts (strings : List Bytes) :
    (strings.flatMap parts).length = chunkCount strings := by
  induction strings with
  | nil => rfl
  | cons s rest ih =>
      rw [List.flatMap_cons, List.length_append, ih, chunkCount_cons]

/-! ## What the writer sends -/

/-- The chunks sealed from a counter on. -/
def chunkStream (key iv : Block) : Nat → List Bytes → Bytes
  | _, [] => []
  | count, part :: rest =>
      let sealed := gcmSeal gcm key (Bytes.uint16BE count ++ iv.val.subarray 2 12) part
      Bytes.uint16BE sealed.length ++ sealed ++ chunkStream key iv (count + 1) rest

/-- The writer once these parts are sent. -/
def VmessChunkWriter.sent (w : VmessChunkWriter) (ps : List Bytes) : VmessChunkWriter :=
  { w with count := w.count + ps.length,
           sink := w.sink ++ chunkStream gcm w.key w.iv w.count ps }

theorem writeParts_append (w : VmessChunkWriter) (a b : List Bytes) :
    w.writeParts gcm (a ++ b) =
      match w.writeParts gcm a with
      | (w, none) => (w, none)
      | (w, some ()) => w.writeParts gcm b := by
  induction a generalizing w with
  | nil => rfl
  | cons part rest ih =>
      simp only [List.cons_append, VmessChunkWriter.writeParts]
      rcases w.writePart gcm part with ⟨w', _ | _⟩
      · rfl
      · exact ih w'

theorem writeAll_eq (w : VmessChunkWriter) (strings : List Bytes) :
    w.writeAll gcm strings = w.writeParts gcm (strings.flatMap parts) := by
  induction strings generalizing w with
  | nil => rfl
  | cons s rest ih =>
      rw [List.flatMap_cons, writeParts_append, VmessChunkWriter.writeAll,
        VmessChunkWriter.write]
      rcases w.writeParts gcm (parts s) with ⟨w', _ | _⟩
      · rfl
      · exact ih w'

theorem writePart_of_lt {w : VmessChunkWriter} {part : Bytes} (hc : w.count < 65536)
    (hp : part.length ≤ 0x3fff) :
    w.writePart gcm part = (w.sent gcm [part], some ()) := by
  have hl : part.length + 16 < 65536 := by omega
  simp [VmessChunkWriter.writePart, VmessChunkWriter.sent, chunkNonce, hc, length_gcmSeal, hl,
    chunkStream]

theorem sent_cons (w : VmessChunkWriter) (part : Bytes) (rest : List Bytes) :
    w.sent gcm (part :: rest) = (w.sent gcm [part]).sent gcm rest := by
  simp only [VmessChunkWriter.sent, chunkStream, List.length_cons, List.length_nil,
    List.append_assoc, List.append_nil, VmessChunkWriter.mk.injEq, and_true, true_and]
  omega

theorem writeParts_of_le {w : VmessChunkWriter} {ps : List Bytes}
    (hc : w.count + ps.length ≤ 65536) (hp : ∀ part ∈ ps, part.length ≤ 0x3fff) :
    w.writeParts gcm ps = (w.sent gcm ps, some ()) := by
  induction ps generalizing w with
  | nil => simp [VmessChunkWriter.writeParts, VmessChunkWriter.sent, chunkStream]
  | cons part rest ih =>
      rw [List.length_cons] at hc
      have hw : w.writePart gcm part = (w.sent gcm [part], some ()) :=
        writePart_of_lt gcm (by omega) (hp part (by simp))
      have hcount : (w.sent gcm [part]).count = w.count + 1 := rfl
      have hr := ih (w := w.sent gcm [part]) (by omega) fun p h => hp p (List.mem_cons_of_mem _ h)
      rw [VmessChunkWriter.writeParts, hw, sent_cons gcm w part rest]
      exact hr

/-- The chunk that would take the counter past two bytes throws. -/
theorem writeParts_of_gt {w : VmessChunkWriter} {ps : List Bytes} (hw : w.count ≤ 65536)
    (hc : 65536 < w.count + ps.length) : (w.writeParts gcm ps).2 = none := by
  induction ps generalizing w with
  | nil =>
      rw [List.length_nil] at hc
      omega
  | cons part rest ih =>
      rw [List.length_cons] at hc
      by_cases hlt : w.count < 65536
      · rw [VmessChunkWriter.writeParts]
        rcases hp : w.writePart gcm part with ⟨w', _ | _⟩
        · rfl
        · have hcount : w'.count = w.count + 1 := by
            have h1 : (w.writePart gcm part).1.count = w.count + 1 := by
              simp only [VmessChunkWriter.writePart]
              split
              · rfl
              · split <;> rfl
            rw [hp] at h1
            exact h1
          exact ih (by omega) (by omega)
      · simp [VmessChunkWriter.writeParts, VmessChunkWriter.writePart, chunkNonce, hlt]

/-! ## What the reader makes of it -/

variable {gcm}

/-- The source still holds these chunks and the terminal one, in step with the reader. -/
structure InStep (gcm : Gcm) (source : Source UInt8) (t : VmessChunkReader × source.State)
    (chunks : List Bytes) : Prop where
  content : source.content t.2 =
    chunkStream gcm t.1.key t.1.iv t.1.count chunks ++ [0, 0]
  counted : t.1.count + chunks.length ≤ 65536
  sized : ∀ c ∈ chunks, c ≠ [] ∧ c.length ≤ 0x3fff

theorem readChunk_stop {source : Source UInt8} {t : VmessChunkReader × source.State}
    (h : InStep gcm source t []) :
    ∃ t', VmessChunkReader.readChunk gcm source t = some (none, t') := by
  obtain ⟨r, s⟩ := t
  obtain ⟨s', hr, _⟩ := source.read_append (a := [0, 0]) (b := [])
    (by simpa [chunkStream] using h.content)
  refine ⟨(r, s'), ?_⟩
  rw [List.length_cons, List.length_singleton] at hr
  simp [VmessChunkReader.readChunk, hr, Bytes.readUInt16BE]

theorem readChunk_item {source : Source UInt8} {t : VmessChunkReader × source.State}
    {c : Bytes} {rest : List Bytes} (h : InStep gcm source t (c :: rest)) :
    ∃ t', VmessChunkReader.readChunk gcm source t = some (some c, t') ∧
      InStep gcm source t' rest := by
  obtain ⟨r, s⟩ := t
  obtain ⟨hcont, hcount, hsized⟩ := h
  obtain ⟨hne, hlen⟩ := hsized c (by simp)
  have hlt : r.count < 65536 := by rw [List.length_cons] at hcount; simp only at hcount; omega
  have hsl := length_gcmSeal gcm r.key (Bytes.uint16BE r.count ++ r.iv.val.subarray 2 12) c
  have hopen := gcmOpen_gcmSeal gcm r.key (Bytes.uint16BE r.count ++ r.iv.val.subarray 2 12) c
  simp only [chunkStream, List.append_assoc] at hcont
  obtain ⟨s1, hr1, hc1⟩ := source.read_append hcont
  obtain ⟨s2, hr2, hc2⟩ := source.read_append hc1
  have hsize : Bytes.readUInt16BE (Bytes.uint16BE (c.length + 16)) 0 = some (c.length + 16) :=
    Bytes.readUInt16BE_uint16BE (by omega)
  have htwo : (Bytes.uint16BE (c.length + 16)).length = 2 := rfl
  rw [hsl] at hr1 hr2
  rw [htwo] at hr1
  refine ⟨({ r with count := r.count + 1 }, s2), ?_, hc2, ?_, fun d hd => ?_⟩
  · simp [VmessChunkReader.readChunk, hr1, hsize, hr2, chunkNonce, hlt, hopen]
  · rw [List.length_cons] at hcount
    simp only at hcount ⊢
    omega
  · exact hsized d (List.mem_cons_of_mem _ hd)

theorem readsBack_of_inStep {key iv : Block} {source : Source UInt8} {s : source.State}
    {chunks : List Bytes} (h : InStep gcm source (⟨key, iv, 0⟩, s) chunks) :
    ReadsBack gcm key iv source s chunks.flatten :=
  ⟨chunks, yields_of (fun _ => readChunk_stop) (fun _ _ _ => readChunk_item) h,
    fun c hc => (h.sized c hc).1, rfl⟩

/-- The stream round-trips exactly when it takes at most 65536 chunks. -/
theorem roundTrips_iff (gcm : Gcm) (key iv : Block) (strings : List Bytes) :
    RoundTrips gcm key iv strings ↔ chunkCount strings ≤ 65536 := by
  have hsized : ∀ part ∈ strings.flatMap parts, part ≠ [] ∧ part.length ≤ 0x3fff := by
    intro part hp
    obtain ⟨s, _, hs⟩ := List.mem_flatMap.mp hp
    exact parts_sized s part hs
  rw [← length_flatMap_parts]
  constructor
  · intro h
    by_contra hgt
    have := h.writes
    rw [writeAll_eq, writeParts_of_gt gcm (Nat.zero_le _) (by simp only; omega)] at this
    cases this
  · intro hle
    have hw : VmessChunkWriter.writeAll gcm { key, iv } strings =
        (VmessChunkWriter.sent gcm { key, iv } (strings.flatMap parts), some ()) := by
      rw [writeAll_eq]
      exact writeParts_of_le gcm (by simp only; omega) fun p hp => (hsized p hp).2
    have hsink : (VmessChunkWriter.writeAll gcm { key, iv } strings).1.end.sink =
        chunkStream gcm key iv 0 (strings.flatMap parts) ++ [0, 0] := by
      rw [hw]
      rfl
    refine ⟨by rw [hw], fun fragments hf => ?_, fun schedule hs => ?_⟩
    · rw [← flatten_flatMap_parts]
      refine readsBack_of_inStep ⟨?_, by simp only; omega, hsized⟩
      rw [hsink] at hf
      exact hf
    · rw [← flatten_flatMap_parts]
      refine readsBack_of_inStep ⟨?_, by simp only; omega, hsized⟩
      rw [hsink] at hs
      exact hs

/-- A cipher that leaves its plaintext open. -/
def plain : Gcm where
  encrypt _ _ plaintext := (plaintext, List.replicate 16 0)
  decrypt _ _ ciphertext tag := if tag = List.replicate 16 0 then some ciphertext else none
  decrypt_encrypt _ _ _ := if_pos rfl
  length_ciphertext _ _ _ := rfl
  length_tag _ _ _ := List.length_replicate

def zeros : Block := ⟨List.replicate 16 0, List.length_replicate⟩

/-- One-byte writes throw at the 65537th, whatever the cipher. -/
theorem write_65537_throws : ¬ RoundTrips plain zeros zeros (List.replicate 65537 [0]) := by
  have hcount : ∀ n, chunkCount (List.replicate n [0]) = n := by
    intro n
    induction n with
    | zero => rfl
    | succ n ih =>
        rw [List.replicate_succ, chunkCount, ih, List.length_singleton]
        omega
  rw [roundTrips_iff, hcount]
  decide

end DshClashProxy.Core.Vmess
