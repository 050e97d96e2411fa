import DshClashProxy.Core.EncodeAddr
import DshClashProxy.Core.Sip004
import DshClashProxy.Core.Vmess
import Mathlib.Data.List.Nodup

/-!
# The Shadowsocks client

`ssConnect` frames each sealed chunk with a length in the clear and seals both directions
under one key with counters that start at zero. So no SIP004 decoder takes its stream, and
a nonce is used twice as soon as the peer answers.
-/
namespace DshClashProxy.Core.Shadowsocks

open Js Lib.ByteSource Sip004 EncodeAddr

/-- The keys of `SS_KEY_SIZES`. -/
inductive Cipher where
  | aes128Gcm
  | aes256Gcm
  | chacha20IetfPoly1305
  deriving DecidableEq

def Cipher.name : Cipher → Text
  | aes128Gcm => "aes-128-gcm".toList
  | aes256Gcm => "aes-256-gcm".toList
  | chacha20IetfPoly1305 => "chacha20-ietf-poly1305".toList

/-- `SS_KEY_SIZES`. -/
def Cipher.keySize : Cipher → Nat
  | aes128Gcm => 16
  | aes256Gcm => 32
  | chacha20IetfPoly1305 => 32

/-- `SS_SALT_SIZES`. -/
def Cipher.saltSize : Cipher → Nat
  | aes128Gcm => 16
  | aes256Gcm => 32
  | chacha20IetfPoly1305 => 32

/-- What the client takes from Node: MD5, HKDF over SHA-1 and the ciphers. -/
structure Crypto where
  md5 : Bytes → Sized 16
  /-- Secret, salt, info and the length wanted. -/
  hkdf : Bytes → Bytes → Bytes → (length : Nat) → Sized length
  aead : (cipher : Cipher) → Aead cipher.keySize

structure Node where
  cipher : Option Text := none
  password : Option Text := none

variable (crypto : Crypto)

/-! ## Keys and nonces -/

/-- The loop of `ssMasterKey`. -/
def extendKey (password : Bytes) (keyLength : Nat) (out previous : Bytes) : Bytes :=
  if out.length < keyLength then
    let digest := crypto.md5 (previous ++ password)
    extendKey password keyLength (out ++ digest.val) digest.val
  else out.take keyLength
termination_by keyLength - out.length
decreasing_by
  rw [List.length_append, digest.property]
  omega

def ssMasterKey (password : Text) (keyLength : Nat) : Bytes :=
  extendKey crypto (Bytes.utf8Encode password) keyLength [] []

def ssSubkey (password : Text) (cipher : Cipher) (salt : Bytes) : Sized cipher.keySize :=
  crypto.hkdf (ssMasterKey crypto password cipher.keySize) salt
    (Bytes.ofAscii "ss-subkey".toList) cipher.keySize

/-- The next value of `counter++`; above `2^53` the sum rounds back. -/
def increment (counter : Nat) : Nat := if counter < 2 ^ 53 then counter + 1 else counter

/-- The state of `makeSsNonce`. -/
structure SsNonce where
  counter : Nat := 0
  deriving DecidableEq

def SsNonce.bytes (n : SsNonce) : Sized 12 :=
  ⟨Bytes.uintLE 8 n.counter ++ List.replicate 4 0, by
    rw [List.length_append, Bytes.length_uintLE, List.length_replicate]⟩

def SsNonce.next (n : SsNonce) : SsNonce := ⟨increment n.counter⟩

/-! ## Chunks -/

variable {crypto} {cipher : Cipher}

/-- Ciphertext and tag, with the length as associated data. -/
def ssSeal (aead : Aead cipher.keySize) (key : Sized cipher.keySize) (nonce : Sized 12)
    (plaintext : Bytes) : Bytes :=
  let length := twoBytes (.finite plaintext.length)
  (aead.encrypt key nonce length plaintext).1 ++ (aead.encrypt key nonce length plaintext).2

def ssOpen (aead : Aead cipher.keySize) (key : Sized cipher.keySize) (nonce : Sized 12)
    (chunk : Bytes) : Option Bytes :=
  let length := twoBytes (.finite ((chunk.length : ℚ) - 16))
  let cut := chunk.place (chunk.length - 16)
  aead.decrypt key nonce length (chunk.take cut) (chunk.drop cut)

/-- A sealed chunk behind its length. -/
def framed (chunk : Bytes) : Bytes := twoBytes (.finite chunk.length) ++ chunk

/-- One connection. The last field is history: the key and nonce of every sealed message. -/
structure SsFace where
  cipher : Cipher
  key : Sized cipher.keySize
  outNonce : SsNonce := {}
  inNonce : SsNonce := {}
  socket : Bytes := []
  used : List (Sized cipher.keySize × Sized 12) := []

variable (crypto)

/-- Seal with the next outbound nonce and put the framed chunk on the socket. -/
def SsFace.send (f : SsFace) (part : Bytes) : SsFace :=
  { f with
    outNonce := f.outNonce.next
    socket := f.socket ++ framed (ssSeal (crypto.aead f.cipher) f.key f.outNonce.bytes part)
    used := f.used ++ [(f.key, f.outNonce.bytes)] }

def SsFace.write (f : SsFace) (data : Bytes) : SsFace :=
  (Vmess.parts data).foldl (SsFace.send crypto) f

/-- What an object finds under a name that it inherits, as Node describes it. -/
def inherited (name : Text) : Option Text :=
  if name = "constructor".toList then some "function Object".toList
  else if name = "__proto__".toList then some "an instance of Object".toList
  else if ["__defineGetter__".toList, "__defineSetter__".toList, "hasOwnProperty".toList,
      "__lookupGetter__".toList, "__lookupSetter__".toList, "isPrototypeOf".toList,
      "propertyIsEnumerable".toList, "toString".toList, "valueOf".toList,
      "toLocaleString".toList].any (· = name) then some ("function ".toList ++ name)
  else none

/-- `SS_KEY_SIZES[cipherName]`, which throws for other names; `randomBytes` throws for those that
the table inherits. -/
def Node.supported (node : Node) : Except Text Cipher :=
  let cipherName := node.cipher.getD "aes-256-gcm".toList
  match [Cipher.aes128Gcm, .aes256Gcm, .chacha20IetfPoly1305].find? (·.name = cipherName) with
  | some cipher => .ok cipher
  | none =>
      match inherited cipherName with
      | some received =>
          .error ("The \"size\" argument must be of type number. Received ".toList ++ received)
      | none => .error ("ss: unsupported cipher ".toList ++ cipherName)

def ssConnect (node : Node) (randomBytes : (length : Nat) → Sized length) (host : Text)
    (port : Number) : Except Text SsFace := do
  let cipher ← node.supported
  let salt := randomBytes cipher.saltSize
  let key := ssSubkey crypto (node.password.getD []) cipher salt.val
  return SsFace.send crypto { cipher, key, socket := salt.val } (encodeAddr host port)

/-- `inNonce.next()` and `ssOpen`. -/
def SsFace.openChunk (f : SsFace) (chunk : Bytes) : Option Bytes × SsFace :=
  (ssOpen (crypto.aead f.cipher) f.key f.inNonce.bytes chunk,
    { f with inNonce := f.inNonce.next })

/-- One turn of the read loop. None is a throw or a read that never settles. -/
def SsFace.readChunk (source : Source UInt8) (f : SsFace) (s : source.State) :
    Option (Bytes × SsFace × source.State) := do
  let (lengthHeader, s) ← source.read s 2
  let length ← Bytes.readUInt16BE lengthHeader 0
  let (chunk, s) ← source.read s length
  let plaintext ← (f.openChunk crypto chunk).1
  return (plaintext, (f.openChunk crypto chunk).2, s)

inductive Event where
  /-- A payload passed to `write`. -/
  | write (data : Bytes)
  /-- A chunk that the peer sealed under the key and nonce the client opens it with. -/
  | chunk (plaintext : Bytes)

/-- The key and nonce with which the next inbound chunk is opened. -/
def SsFace.inbound (f : SsFace) : Sized f.cipher.keySize × Sized 12 := (f.key, f.inNonce.bytes)

def SsFace.step (f : SsFace) : Event → SsFace
  | .write data => f.write crypto data
  | .chunk plaintext =>
      let chunk := ssSeal (crypto.aead f.cipher) f.inbound.1 f.inbound.2 plaintext
      SsFace.openChunk crypto { f with used := f.used ++ [f.inbound] } chunk |>.2

def SsFace.run (f : SsFace) (events : List Event) : SsFace := events.foldl (SsFace.step crypto) f

/-! ## The stream against SIP004 -/

def SsFace.writeAll (f : SsFace) (payloads : List Bytes) : SsFace :=
  payloads.foldl (SsFace.write crypto) f

/-- A SIP004 decoder gets the header and the payloads out of what was put on the socket. -/
def Accepted (node : Node) (host : Text) (port : Number) (f : SsFace) (payloads : List Bytes) :
    Prop :=
  decode (crypto.aead f.cipher) f.cipher.saltSize
      (ssSubkey crypto (node.password.getD []) f.cipher) (f.writeAll crypto payloads).socket =
    some (encodeAddr host port ++ payloads.flatten)

/-- It does so whenever it has received what was put on the socket so far. -/
def SpeaksSip004 (node : Node) (host : Text) (port : Number) (f : SsFace)
    (payloads : List Bytes) : Prop :=
  ∀ sent, sent <+: payloads → Accepted crypto node host port f sent

variable {crypto}

theorem length_ssSeal (aead : Aead cipher.keySize) (key : Sized cipher.keySize)
    (nonce : Sized 12) (plaintext : Bytes) :
    (ssSeal aead key nonce plaintext).length = plaintext.length + 16 := by
  rw [ssSeal, List.length_append, aead.length_ciphertext, aead.length_tag]

/-- What was sealed under a key and nonce opens under them. -/
theorem ssOpen_ssSeal (aead : Aead cipher.keySize) (key : Sized cipher.keySize)
    (nonce : Sized 12) (plaintext : Bytes) :
    ssOpen aead key nonce (ssSeal aead key nonce plaintext) = some plaintext := by
  have hlen := length_ssSeal aead key nonce plaintext
  have haad : ((ssSeal aead key nonce plaintext).length : ℚ) - 16 = plaintext.length := by
    rw [hlen]
    push_cast
    ring
  have hcut : (ssSeal aead key nonce plaintext).place
      ((ssSeal aead key nonce plaintext).length - 16) = plaintext.length := by
    rw [hlen, Bytes.place]
    split <;> omega
  have hc := aead.length_ciphertext key nonce (twoBytes (.finite plaintext.length)) plaintext
  rw [ssOpen, haad, hcut]
  simp only [ssSeal, List.take_left' hc, List.drop_left' hc, aead.decrypt_encrypt]

theorem length_send (f : SsFace) (part : Bytes) :
    (f.send crypto part).socket.length = f.socket.length + 18 + part.length := by
  have h2 : ∀ n, (twoBytes n).length = 2 := fun _ => rfl
  simp only [SsFace.send, framed, List.length_append, h2, length_ssSeal]
  omega

theorem length_sends (f : SsFace) (parts : List Bytes) :
    (parts.foldl (SsFace.send crypto) f).socket.length =
      f.socket.length + 18 * parts.length + parts.flatten.length := by
  induction parts generalizing f with
  | nil => simp
  | cons part rest ih =>
      rw [List.foldl_cons, ih, length_send, List.length_cons, List.flatten_cons,
        List.length_append]
      omega

/-- Successive writes send the parts of all payloads. -/
theorem writeAll_eq (f : SsFace) (payloads : List Bytes) :
    f.writeAll crypto payloads = (payloads.flatMap Vmess.parts).foldl (SsFace.send crypto) f := by
  rw [List.foldl_flatMap]
  rfl

theorem length_writeAll (f : SsFace) (payloads : List Bytes) :
    (f.writeAll crypto payloads).socket.length =
      f.socket.length + 18 * Vmess.chunkCount payloads + payloads.flatten.length := by
  rw [writeAll_eq, length_sends, Vmess.length_flatMap_parts, Vmess.flatten_flatMap_parts]

theorem ssConnect_inv {node : Node} {randomBytes : (length : Nat) → Sized length} {host : Text}
    {port : Number} {f : SsFace} (h : ssConnect crypto node randomBytes host port = .ok f) :
    ∃ cipher, f = SsFace.send crypto
      { cipher
        key := ssSubkey crypto (node.password.getD []) cipher (randomBytes cipher.saltSize).val
        socket := (randomBytes cipher.saltSize).val } (encodeAddr host port) := by
  unfold ssConnect at h
  cases hs : node.supported with
  | error e =>
      rw [hs] at h
      cases h
  | ok cipher =>
      rw [hs] at h
      exact ⟨cipher, (Except.ok.inj h).symm⟩

theorem ssConnect_eq {node : Node} {randomBytes : (length : Nat) → Sized length} {host : Text}
    {port : Number} {f : SsFace} (h : ssConnect crypto node randomBytes host port = .ok f) :
    ∃ cipher key, f = SsFace.send crypto
      { cipher, key, socket := (randomBytes cipher.saltSize).val } (encodeAddr host port) := by
  obtain ⟨cipher, rfl⟩ := ssConnect_inv h
  exact ⟨cipher, _, rfl⟩

theorem length_ssConnect {node : Node} {randomBytes : (length : Nat) → Sized length}
    {host : Text} {port : Number} {f : SsFace}
    (h : ssConnect crypto node randomBytes host port = .ok f) :
    f.socket.length = f.cipher.saltSize + 18 + (encodeAddr host port).length := by
  obtain ⟨cipher, key, rfl⟩ := ssConnect_eq h
  rw [length_send, (randomBytes cipher.saltSize).property]
  rfl

/-- The client spends 18 bytes on a chunk and SIP004 spends 34. -/
theorem seventeen_dvd_of_accepted {node : Node} {randomBytes : (length : Nat) → Sized length}
    {host : Text} {port : Number} {f : SsFace}
    (h : ssConnect crypto node randomBytes host port = .ok f) {payloads : List Bytes}
    (ha : Accepted crypto node host port f payloads) : 17 ∣ 1 + Vmess.chunkCount payloads := by
  obtain ⟨chunks, hl⟩ := length_of_decode ha
  rw [length_writeAll, length_ssConnect h, List.length_append] at hl
  omega

/-- The stream is never SIP004: the decoder already rejects the header. What all writes
together send could pass for SIP004 only where its chunks are a multiple of seventeen. -/
theorem ssConnect_never_speaks_sip004 {node : Node}
    {randomBytes : (length : Nat) → Sized length} {host : Text} {port : Number} {f : SsFace}
    (h : ssConnect crypto node randomBytes host port = .ok f) (payloads : List Bytes) :
    ¬ SpeaksSip004 crypto node host port f payloads ∧
      (Accepted crypto node host port f payloads → 17 ∣ 1 + Vmess.chunkCount payloads) := by
  refine ⟨fun hall => ?_, seventeen_dvd_of_accepted h⟩
  have hheader := seventeen_dvd_of_accepted h (hall [] (List.nil_prefix))
  exact absurd hheader (by decide)

/-- A cipher that leaves its plaintext open. -/
def plainAead (keySize : Nat) : Aead keySize where
  encrypt _ _ _ plaintext := (plaintext, List.replicate 16 0)
  decrypt _ _ _ ciphertext tag := if tag = List.replicate 16 0 then some ciphertext else none
  decrypt_encrypt _ _ _ _ := if_pos rfl
  length_ciphertext _ _ _ _ := rfl
  length_tag _ _ _ _ := List.length_replicate
  length_plaintext _ _ _ ciphertext tag plaintext h := by
    split at h
    · rw [Option.some.inj h]
    · cases h

def zeros (n : Nat) : Sized n := ⟨List.replicate n 0, List.length_replicate⟩

def plain : Crypto where
  md5 _ := zeros 16
  hkdf _ _ _ length := zeros length
  aead cipher := plainAead cipher.keySize

/-- A connection to example.com that has written nothing yet. -/
def silent : SsFace :=
  SsFace.send plain { cipher := .aes128Gcm, key := zeros 16, socket := (zeros 16).val }
    (encodeAddr "example.com".toList 443)

def silentNode : Node := { cipher := some "aes-128-gcm".toList, password := some "secret".toList }

theorem ssConnect_silent :
    ssConnect plain silentNode zeros "example.com".toList 443 = .ok silent := rfl

theorem silent_never_speaks_sip004 :
    ¬ SpeaksSip004 plain silentNode "example.com".toList 443 silent [] ∧
      (Accepted plain silentNode "example.com".toList 443 silent [] → 17 ∣ 1 + 0) :=
  ssConnect_never_speaks_sip004 ssConnect_silent []

/-- The header alone is rejected. -/
theorem header_rejected :
    ¬ ∀ (crypto : Crypto) (node : Node) (randomBytes : (length : Nat) → Sized length)
      (host : Text) (port : Number) (f : SsFace) (payloads : List Bytes),
      ssConnect crypto node randomBytes host port = .ok f →
        Accepted crypto node host port f payloads := by
  intro h
  have ha := h plain silentNode zeros "example.com".toList 443 silent [] ssConnect_silent
  have hd := seventeen_dvd_of_accepted ssConnect_silent ha
  exact absurd hd (by decide)

/-! ## Nonces -/

/-- The payloads of the chunks that were opened. -/
def received (events : List Event) : List Bytes :=
  events.filterMap fun e => match e with
    | .chunk plaintext => some plaintext
    | .write _ => none

/-- The payloads passed to `write`. -/
def written (events : List Event) : List Bytes :=
  events.filterMap fun e => match e with
    | .write data => some data
    | .chunk _ => none

/-- The nonce of the n-th message in one direction. -/
def nthNonce (n : Nat) : Sized 12 := SsNonce.bytes ⟨min n (2 ^ 53)⟩

/-- This many messages were sealed in each direction, each under the key. -/
structure Counted (f : SsFace) (sent got : Nat) : Prop where
  outNonce : f.outNonce.counter = min sent (2 ^ 53)
  inNonce : f.inNonce.counter = min got (2 ^ 53)
  used : f.used.Perm ((List.range sent ++ List.range got).map fun n => (f.key, nthNonce n))

theorem increment_min (n : Nat) : increment (min n (2 ^ 53)) = min (n + 1) (2 ^ 53) := by
  unfold increment
  split <;> omega

theorem bytes_of_counter {n : SsNonce} {count : Nat} (h : n.counter = min count (2 ^ 53)) :
    n.bytes = nthNonce count := by
  obtain ⟨counter⟩ := n
  have hc : counter = min count (2 ^ 53) := h
  rw [hc, nthNonce]

variable (crypto)

theorem counted_send {f : SsFace} {sent got : Nat} (h : Counted f sent got) (part : Bytes) :
    Counted (f.send crypto part) (sent + 1) got := by
  refine ⟨?_, h.inNonce, ?_⟩
  · change increment f.outNonce.counter = _
    rw [h.outNonce, increment_min]
  · change (f.used ++ [(f.key, f.outNonce.bytes)]).Perm _
    rw [bytes_of_counter h.outNonce, List.range_succ]
    refine (h.used.append_right _).trans ?_
    simp only [List.map_append, List.map_cons, List.map_nil, List.append_assoc]
    exact List.Perm.append_left _ List.perm_append_comm

theorem counted_sends {f : SsFace} {sent got : Nat} (h : Counted f sent got)
    (parts : List Bytes) :
    Counted (parts.foldl (SsFace.send crypto) f) (sent + parts.length) got := by
  induction parts generalizing f sent with
  | nil => exact h
  | cons part rest ih =>
      have := ih (counted_send crypto h part)
      rwa [Nat.add_assoc, Nat.add_comm 1] at this

theorem counted_write {f : SsFace} {sent got : Nat} (h : Counted f sent got) (data : Bytes) :
    Counted (f.write crypto data) (sent + (Vmess.parts data).length) got :=
  counted_sends crypto h (Vmess.parts data)

theorem counted_chunk {f : SsFace} {sent got : Nat} (h : Counted f sent got)
    (plaintext : Bytes) : Counted (f.step crypto (.chunk plaintext)) sent (got + 1) := by
  refine ⟨h.outNonce, ?_, ?_⟩
  · change increment f.inNonce.counter = _
    rw [h.inNonce, increment_min]
  · change (f.used ++ [(f.key, f.inNonce.bytes)]).Perm _
    rw [bytes_of_counter h.inNonce, List.range_succ, ← List.append_assoc, List.map_append]
    exact h.used.append_right _

/-- Whatever the order of the events, each direction counts its own messages. -/
theorem counted_run {f : SsFace} {sent got : Nat} (h : Counted f sent got)
    (events : List Event) :
    Counted (f.run crypto events) (sent + Vmess.chunkCount (written events))
      (got + (received events).length) := by
  induction events generalizing f sent got with
  | nil => exact h
  | cons e rest ih =>
      cases e with
      | write data =>
          have hrest := ih (counted_write crypto h data)
          have hcount : Vmess.chunkCount (written (.write data :: rest)) =
              (Vmess.parts data).length + Vmess.chunkCount (written rest) :=
            Vmess.chunkCount_cons data (written rest)
          rw [hcount, ← Nat.add_assoc]
          exact hrest
      | chunk plaintext =>
          have hrest := ih (counted_chunk crypto h plaintext)
          have hcount : (received (.chunk plaintext :: rest)).length =
              1 + (received rest).length := Nat.add_comm _ 1
          rw [hcount, ← Nat.add_assoc]
          exact hrest

theorem counted_ssConnect {node : Node} {randomBytes : (length : Nat) → Sized length}
    {host : Text} {port : Number} {f : SsFace}
    (h : ssConnect crypto node randomBytes host port = .ok f) : Counted f 1 0 := by
  obtain ⟨cipher, key, rfl⟩ := ssConnect_eq h
  exact counted_send crypto ⟨rfl, rfl, .refl _⟩ _

theorem nthNonce_inj {m n : Nat} (hm : m ≤ 2 ^ 53) (hn : n ≤ 2 ^ 53)
    (h : nthNonce m = nthNonce n) : m = n := by
  have hb := congrArg Subtype.val h
  simp only [nthNonce, SsNonce.bytes, Nat.min_eq_left hm, Nat.min_eq_left hn,
    List.append_cancel_right_eq] at hb
  exact Bytes.uintLE_injective (by omega) (by omega) hb

/-- A chunk that the peer sealed for the client is read as its plaintext, wherever the
transport cuts it. -/
theorem readChunk_framed {source : Source UInt8} {f : SsFace} {s : source.State}
    {plaintext rest : Bytes} (hl : plaintext.length + 16 < 65536)
    (hs : source.content s = framed (ssSeal (crypto.aead f.cipher) f.inbound.1 f.inbound.2
      plaintext) ++ rest) :
    ∃ s', f.readChunk crypto source s =
      some (plaintext, { f with inNonce := f.inNonce.next }, s') ∧ source.content s' = rest := by
  have hlen := length_ssSeal (crypto.aead f.cipher) f.inbound.1 f.inbound.2 plaintext
  rw [framed, hlen, twoBytes_natCast hl, List.append_assoc] at hs
  obtain ⟨s1, hr1, hc1⟩ := source.read_append hs
  obtain ⟨s2, hr2, hc2⟩ := source.read_append hc1
  have htwo : (Bytes.uint16BE (plaintext.length + 16)).length = 2 := rfl
  rw [htwo] at hr1
  rw [hlen] at hr2
  have hopen : (f.openChunk crypto (ssSeal (crypto.aead f.cipher) f.inbound.1 f.inbound.2
      plaintext)).1 = some plaintext := ssOpen_ssSeal _ _ _ _
  refine ⟨s2, ?_, hc2⟩
  simp only [SsFace.readChunk, hr1, Bytes.readUInt16BE_uint16BE hl, hr2, hopen,
    Option.bind_eq_bind, Option.bind_some]
  rfl

/-- Every message has a nonce of its own exactly as long as nothing is read and the counter
still counts. -/
theorem used_nodup_iff {node : Node} {randomBytes : (length : Nat) → Sized length}
    {host : Text} {port : Number} {f : SsFace}
    (h : ssConnect crypto node randomBytes host port = .ok f) (events : List Event) :
    (f.run crypto events).used.Nodup ↔
      received events = [] ∧ Vmess.chunkCount (written events) ≤ 2 ^ 53 := by
  obtain ⟨_, _, hused⟩ := counted_run crypto (counted_ssConnect crypto h) events
  rw [hused.nodup_iff, Nat.zero_add]
  constructor
  · intro hnodup
    have hinj := List.inj_on_of_nodup_map hnodup
    have hrange := hnodup.of_map
    have hgot : received events = [] := by
      by_contra hne
      have hpos := List.length_pos_iff.mpr hne
      have hdisjoint := List.disjoint_of_nodup_append hrange
      exact hdisjoint (List.mem_range.mpr (show 0 < _ by omega)) (List.mem_range.mpr hpos)
    refine ⟨hgot, ?_⟩
    by_contra hgt
    have hmem : ∀ n, n ≤ 2 ^ 53 + 1 →
        n ∈ List.range (1 + Vmess.chunkCount (written events)) ++
          List.range (received events).length := fun n hn =>
      List.mem_append_left _ (List.mem_range.mpr (by omega))
    have hsame : nthNonce (2 ^ 53) = nthNonce (2 ^ 53 + 1) := rfl
    have heq := hinj (hmem (2 ^ 53) (by omega)) (hmem (2 ^ 53 + 1) (by omega)) (by rw [hsame])
    omega
  · intro h
    obtain ⟨hgot, hle⟩ := h
    rw [hgot, List.length_nil, List.range_zero, List.append_nil]
    refine List.Nodup.map_on (fun m hm n hn he => ?_) List.nodup_range
    rw [List.mem_range] at hm hn
    exact nthNonce_inj (by omega) (by omega) (Prod.mk.inj he).2

theorem silent_used_nodup : (silent.run plain [.write [0x16, 0x03, 0x01]]).used.Nodup :=
  (used_nodup_iff _ ssConnect_silent [.write [0x16, 0x03, 0x01]]).mpr ⟨rfl, by decide⟩

/-- The first chunk that comes in has the nonce under which the header went out. -/
theorem first_chunk_reuses_nonce :
    ¬ ∀ (crypto : Crypto) (node : Node) (randomBytes : (length : Nat) → Sized length)
      (host : Text) (port : Number) (f : SsFace) (events : List Event),
      ssConnect crypto node randomBytes host port = .ok f →
        (f.run crypto events).used.Nodup := by
  intro h
  have hn := h plain silentNode zeros "example.com".toList 443 silent [.chunk [0x15]]
    ssConnect_silent
  exact absurd hn (by decide)

end DshClashProxy.Core.Shadowsocks
