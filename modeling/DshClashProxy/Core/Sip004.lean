import DshClashProxy.Js.Buffer

/-!
# The SIP004 stream

A salt, then chunks: the sealed length of a payload and the sealed payload, each under the
next nonce and without associated data. The decoder below gets back what the encoder sends.
-/
namespace DshClashProxy.Core.Sip004

open Js

/-- Byte strings of a fixed length: keys, nonces, digests. -/
abbrev Sized (n : Nat) := {b : Bytes // b.length = n}

/-- An AEAD cipher: ciphertext and tag from `encrypt`; `decrypt` fails when the tag does not
fit. -/
structure Aead (keySize : Nat) where
  encrypt : Sized keySize → Sized 12 → Bytes → Bytes → Bytes × Bytes
  decrypt : Sized keySize → Sized 12 → Bytes → Bytes → Bytes → Option Bytes
  decrypt_encrypt : ∀ key nonce aad plaintext,
    decrypt key nonce aad (encrypt key nonce aad plaintext).1
      (encrypt key nonce aad plaintext).2 = some plaintext
  length_ciphertext : ∀ key nonce aad plaintext,
    (encrypt key nonce aad plaintext).1.length = plaintext.length
  length_tag : ∀ key nonce aad plaintext, (encrypt key nonce aad plaintext).2.length = 16
  length_plaintext : ∀ key nonce aad ciphertext tag plaintext,
    decrypt key nonce aad ciphertext tag = some plaintext → plaintext.length = ciphertext.length

/-- The nonce of the n-th AEAD operation. -/
def nonce (count : Nat) : Sized 12 := ⟨Bytes.uintLE 12 count, Bytes.length_uintLE 12 count⟩

/-- A payload that fits a chunk. -/
abbrev Payload := {b : Bytes // b.length ≤ 0x3fff}

variable {keySize : Nat} (aead : Aead keySize)

/-- Ciphertext and tag, without associated data. -/
def sealed (key : Sized keySize) (count : Nat) (plaintext : Bytes) : Bytes :=
  (aead.encrypt key (nonce count) [] plaintext).1 ++ (aead.encrypt key (nonce count) [] plaintext).2

/-- The chunks of a stream from the given AEAD operation on. -/
def encodeChunks (key : Sized keySize) : Nat → List Payload → Bytes
  | _, [] => []
  | count, payload :: rest =>
      sealed aead key count (Bytes.uint16BE payload.val.length) ++
        sealed aead key (count + 1) payload.val ++ encodeChunks key (count + 2) rest

/-- What `size` bytes at the front of the stream and the tag behind them open to. -/
def opened (key : Sized keySize) (count size : Nat) (stream : Bytes) : Option Bytes :=
  if stream.length < size + 16 then none
  else aead.decrypt key (nonce count) [] (stream.take size) ((stream.drop size).take 16)

/-- The length and the payload of the first chunk. -/
def decodeChunk (key : Sized keySize) (count : Nat) (stream : Bytes) : Option Bytes := do
  let header ← opened aead key count 2 stream
  let size ← Bytes.readUInt16BE header 0
  if 0x3fff < size then none else opened aead key (count + 1) size (stream.drop 18)

/-- The payloads of a stream that ends with a whole chunk. -/
def decodeChunks (key : Sized keySize) (count : Nat) (stream : Bytes) : Option Bytes :=
  if stream = [] then some []
  else match decodeChunk aead key count stream with
    | none => none
    | some payload =>
        (decodeChunks key (count + 2) (stream.drop (18 + (payload.length + 16)))).map (payload ++ ·)
termination_by stream.length
decreasing_by
  have := List.length_pos_iff.mpr ‹_›
  rw [List.length_drop]
  omega

/-- The payload of a whole connection. -/
def decode (saltSize : Nat) (subkey : Bytes → Sized keySize) (stream : Bytes) : Option Bytes :=
  if stream.length < saltSize then none
  else decodeChunks aead (subkey (stream.take saltSize)) 0 (stream.drop saltSize)

variable {aead}

/-! ## What the encoder sends is decoded -/

theorem length_sealed (key : Sized keySize) (count : Nat) (plaintext : Bytes) :
    (sealed aead key count plaintext).length = plaintext.length + 16 := by
  rw [sealed, List.length_append, aead.length_ciphertext, aead.length_tag]

theorem opened_sealed (key : Sized keySize) (count : Nat) (plaintext rest : Bytes) :
    opened aead key count plaintext.length (sealed aead key count plaintext ++ rest) =
      some plaintext := by
  have hc := aead.length_ciphertext key (nonce count) [] plaintext
  have ht := aead.length_tag key (nonce count) [] plaintext
  have hl : ¬ (sealed aead key count plaintext ++ rest).length < plaintext.length + 16 := by
    rw [List.length_append, length_sealed]
    omega
  rw [opened, if_neg hl, sealed, List.append_assoc, List.take_left' hc, List.drop_left' hc,
    List.take_left' ht, aead.decrypt_encrypt]

theorem decodeChunk_encode (key : Sized keySize) (count : Nat) (payload : Payload)
    (rest : Bytes) :
    decodeChunk aead key count (sealed aead key count (Bytes.uint16BE payload.val.length) ++
      (sealed aead key (count + 1) payload.val ++ rest)) = some payload.val := by
  have hsize := payload.property
  have hread : Bytes.readUInt16BE (Bytes.uint16BE payload.val.length) 0 =
      some payload.val.length := Bytes.readUInt16BE_uint16BE (by omega)
  have hfirst : opened aead key count 2 (sealed aead key count (Bytes.uint16BE payload.val.length)
      ++ (sealed aead key (count + 1) payload.val ++ rest)) =
        some (Bytes.uint16BE payload.val.length) := opened_sealed key count _ _
  have h18 : (sealed aead key count (Bytes.uint16BE payload.val.length)).length = 18 :=
    length_sealed key count _
  simp only [decodeChunk, hfirst, hread, Option.bind_eq_bind, Option.bind_some,
    if_neg (not_lt.mpr hsize), List.drop_left' h18]
  exact opened_sealed key (count + 1) payload.val rest

/-- The payloads come back in order. -/
theorem decodeChunks_encode (key : Sized keySize) (count : Nat) (payloads : List Payload) :
    decodeChunks aead key count (encodeChunks aead key count payloads) =
      some (payloads.flatMap Subtype.val) := by
  induction payloads generalizing count with
  | nil => rw [encodeChunks, decodeChunks, if_pos rfl]; rfl
  | cons payload rest ih =>
      have h18 : (sealed aead key count (Bytes.uint16BE payload.val.length)).length = 18 :=
        length_sealed key count _
      have hp : (sealed aead key (count + 1) payload.val).length = payload.val.length + 16 :=
        length_sealed key (count + 1) _
      have hne : encodeChunks aead key count (payload :: rest) ≠ [] := by
        apply List.ne_nil_of_length_pos
        rw [encodeChunks, List.length_append, List.length_append]
        omega
      have hchunk : decodeChunk aead key count (encodeChunks aead key count (payload :: rest)) =
          some payload.val := by
        rw [encodeChunks, List.append_assoc]
        exact decodeChunk_encode key count payload _
      have hdrop : (encodeChunks aead key count (payload :: rest)).drop
          (18 + (payload.val.length + 16)) = encodeChunks aead key (count + 2) rest := by
        rw [encodeChunks]
        exact List.drop_left' (by rw [List.length_append]; omega)
      rw [decodeChunks, if_neg hne, hchunk]
      simp only [hdrop, ih, Option.map_some, List.flatMap_cons]

theorem decode_encode {saltSize : Nat} (subkey : Bytes → Sized keySize) (salt : Sized saltSize)
    (payloads : List Payload) :
    decode aead saltSize subkey (salt.val ++ encodeChunks aead (subkey salt.val) 0 payloads) =
      some (payloads.flatMap Subtype.val) := by
  have hl : ¬ (salt.val ++ encodeChunks aead (subkey salt.val) 0 payloads).length < saltSize := by
    rw [List.length_append, salt.property]
    omega
  rw [decode, if_neg hl, List.take_left' salt.property, List.drop_left' salt.property,
    decodeChunks_encode]

/-! ## How long an accepted stream is -/

theorem length_of_opened {key : Sized keySize} {count size : Nat} {stream plaintext : Bytes}
    (h : opened aead key count size stream = some plaintext) :
    plaintext.length = size ∧ size + 16 ≤ stream.length := by
  unfold opened at h
  split at h
  · cases h
  · have hl := aead.length_plaintext _ _ _ _ _ _ h
    rw [List.length_take] at hl
    omega

theorem length_of_decodeChunk {key : Sized keySize} {count : Nat} {stream payload : Bytes}
    (h : decodeChunk aead key count stream = some payload) :
    18 + (payload.length + 16) ≤ stream.length := by
  obtain ⟨header, hh, h⟩ := Option.bind_eq_some_iff.mp h
  obtain ⟨size, _, h⟩ := Option.bind_eq_some_iff.mp h
  split at h
  · cases h
  · have h1 := length_of_opened hh
    have h2 := length_of_opened h
    rw [List.length_drop] at h2
    omega

/-- Each chunk adds two tags and two bytes of length to its payload. -/
theorem length_of_decodeChunks {key : Sized keySize} {count : Nat} {stream payload : Bytes}
    (h : decodeChunks aead key count stream = some payload) :
    ∃ chunks, stream.length = 34 * chunks + payload.length := by
  induction hn : stream.length using Nat.strong_induction_on generalizing stream count payload with
  | _ n ih =>
      rw [decodeChunks] at h
      split at h
      · next hs =>
          subst hs
          cases h
          exact ⟨0, by rw [← hn]; rfl⟩
      · split at h
        · cases h
        · next first hc =>
            have hfirst := length_of_decodeChunk hc
            obtain ⟨tail, ht, rfl⟩ := Option.map_eq_some_iff.mp h
            obtain ⟨chunks, hl⟩ := ih _ (by rw [List.length_drop]; omega) ht rfl
            refine ⟨chunks + 1, ?_⟩
            rw [List.length_drop] at hl
            rw [List.length_append]
            omega

theorem length_of_decode {saltSize : Nat} {subkey : Bytes → Sized keySize}
    {stream payload : Bytes} (h : decode aead saltSize subkey stream = some payload) :
    ∃ chunks, stream.length = saltSize + 34 * chunks + payload.length := by
  unfold decode at h
  split at h
  · cases h
  · obtain ⟨chunks, hl⟩ := length_of_decodeChunks h
    rw [List.length_drop] at hl
    exact ⟨chunks, by omega⟩

end DshClashProxy.Core.Sip004
