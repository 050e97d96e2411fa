import DshClashProxy.Core.Faces

/-!
# The Shadowsocks client and the repository's own server

The server of the test fixtures reads what `ssConnect` writes: a salt, then frames of a length
in two bytes and a chunk that `ssOpen` opens under the next nonce. Both ends count alike, so
the frames are read back in order. A chunk whose length does not fit the two bytes is not.
-/
namespace DshClashProxy.Core.SsPeer

open Js Js.Text Lib.ByteSource Transports Sip004 EncodeAddr Shadowsocks Faces

variable (crypto : Crypto)

/-- A connection of `startSsServer` once it has read the salt. -/
structure Peer where
  cipher : Cipher
  key : Sized cipher.keySize
  inNonce : SsNonce := {}
  outNonce : SsNonce := {}

def Peer.accept (cipher : Cipher) (password : Text) (salt : Bytes) : Peer :=
  { cipher, key := ssSubkey crypto password cipher salt }

/-- `read(count)` of the server. -/
def Peer.read (count : Nat) : IterableSource.source.Reads Text Bytes := fun reader =>
  match IterableSource.read reader count with
  | (.ok bytes, reader) => some (.ok bytes, reader)
  | (.error _, reader) => some (.error "client closed".toList, reader)

/-- The next length and the chunk behind it. -/
def readFrame : IterableSource.source.Reads Text Bytes := do
  let length ← Peer.read 2
  Peer.read ((Bytes.readUInt16BE length 0).getD 0)

/-- One turn of the read loop of the server. -/
def Peer.next : Peer × IterableSource →
    Option (Except Text (Option Bytes) × (Peer × IterableSource))
  | (p, reader) =>
      match readFrame reader with
      | none => none
      | some (.error message, reader) => some (.error message, (p, reader))
      | some (.ok chunk, reader) =>
          match ssOpen (crypto.aead p.cipher) p.key p.inNonce.bytes chunk with
          | some message =>
              some (.ok (some message), ({ p with inNonce := p.inNonce.next }, reader))
          | none => some (.error "Unsupported state or unable to authenticate data".toList,
              ({ p with inNonce := p.inNonce.next }, reader))

/-- The server reads the salt off these chunks, and then obtains these messages before the
client is closed. -/
def Obtains (cipher : Cipher) (password : Text) (chunks messages : List Bytes) : Prop :=
  ∃ salt reader, Peer.read cipher.saltSize (iterableSource chunks) = some (.ok salt, reader) ∧
    Iterates (Peer.next crypto) (Peer.accept crypto cipher password salt, reader) messages
      (.error "client closed".toList)

variable {crypto} {cipher : Cipher}

/-- The frames of these chunks, sealed in turn. -/
def frames (crypto : Crypto) (key : Sized cipher.keySize) : SsNonce → List Bytes → Bytes
  | _, [] => []
  | nonce, chunk :: rest =>
      framed (ssSeal (crypto.aead cipher) key nonce.bytes chunk) ++
        frames crypto key nonce.next rest

/-- What the server writes for the chunks that come from the target. -/
def Peer.written (crypto : Crypto) (p : Peer) (chunks : List Bytes) : Bytes :=
  frames crypto p.key p.outNonce chunks

variable (crypto)

/-- The server obtains the address and then messages, none of them empty, that make up what was
written. -/
def Delivers (node : Node) (host : Text) (port : Number) (f : SsFace) (payloads : List Bytes) :
    Prop :=
  ∀ chunks : List Bytes, chunks.flatten = (f.writeAll crypto payloads).socket →
    ∃ messages, Obtains crypto f.cipher (node.password.getD []) chunks
        (encodeAddr host port :: messages) ∧
      (∀ message ∈ messages, message ≠ []) ∧ messages.flatten = payloads.flatten

/-- The face yields what the server sealed under the key of the connection, until the close. -/
def ReadsBack (p : Peer) (f : SsFace) (answers : List Bytes) : Prop :=
  ∀ schedule : List (Option Bytes), (schedule.filterMap id).flatten = p.written crypto answers →
    (ssFace crypto f (.of { schedule })).Runs answers
      (.error "connection closed while reading".toList)

/-- A message whose sealed form has a length of two bytes. -/
def Fits (message : Bytes) : Prop := message.length + 16 < 65536

instance (message : Bytes) : Decidable (Fits message) := inferInstanceAs (Decidable (_ < _))

variable {crypto}

/-! ## Frames -/

/-- Successive sends put frames on the socket. -/
theorem sends_socket (f : SsFace) (parts : List Bytes) :
    (parts.foldl (SsFace.send crypto) f).socket =
      f.socket ++ frames crypto f.key f.outNonce parts := by
  induction parts generalizing f with
  | nil => rw [List.foldl_nil, frames, List.append_nil]
  | cons part rest ih =>
      rw [List.foldl_cons, ih, frames, ← List.append_assoc]
      rfl

/-- The frames that a client opens in turn are those its peer seals in turn. -/
theorem ssFrames_eq (f : SsFace) (parts : List Bytes) :
    ssFrames crypto f parts = frames crypto f.key f.inNonce parts := by
  induction parts generalizing f with
  | nil => rfl
  | cons part rest ih =>
      rw [ssFrames, ih, frames]
      rfl

theorem length_of_ssOpen {aead : Aead cipher.keySize} {key : Sized cipher.keySize}
    {nonce : Sized 12} {chunk message : Bytes} (h : ssOpen aead key nonce chunk = some message)
    (hl : chunk.length < 65536) : Fits message := by
  have hp := aead.length_plaintext _ _ _ _ _ _ h
  rw [List.length_take, Bytes.place] at hp
  rw [Fits]
  split at hp
  · omega
  · omega

/-! ## What the server reads -/

theorem consumes_read (front : Bytes) : Source.Consumes (Peer.read front.length) front front := by
  intro reader rest h
  obtain ⟨reader', hr, hc⟩ := consumes_takeFrom front reader rest h
  have hread : IterableSource.read reader front.length = (.ok front, reader') :=
    Option.some.inj hr
  refine ⟨reader', ?_, hc⟩
  simp only [Peer.read, hread]

theorem consumes_readFrame {chunk : Bytes} (h : chunk.length < 65536) :
    Source.Consumes readFrame (framed chunk) chunk := by
  have hframed : framed chunk = Bytes.uint16BE chunk.length ++ chunk := by
    rw [framed, twoBytes_natCast h]
  rw [hframed]
  refine (consumes_read (Bytes.uint16BE chunk.length)).bind ?_
  rw [Bytes.readUInt16BE_uint16BE h]
  exact consumes_read chunk

theorem readFrame_closed {reader : IterableSource}
    (h : IterableSource.source.content reader = []) :
    ∃ reader', readFrame reader = some (.error "client closed".toList, reader') := by
  have hshort : (IterableSource.source.content reader).length < 2 := by
    rw [h]
    exact Nat.two_pos
  obtain ⟨reader', hr⟩ := readFrom_short 2 reader.pending reader.iterator hshort
  have hread : Peer.read 2 reader = some (.error "client closed".toList, reader') := by
    simp only [Peer.read, IterableSource.read, hr]
    rfl
  exact ⟨reader', Source.bind_error _ hread⟩

theorem length_of_read {count : Nat} {reader reader' : IterableSource} {b : Bytes}
    (h : Peer.read count reader = some (.ok b, reader')) : b.length ≤ count := by
  cases hr : IterableSource.read reader count with
  | mk result rest =>
      simp only [Peer.read, hr] at h
      cases result with
      | error message => cases h
      | ok bytes =>
          cases h
          exact length_of_readFrom hr

theorem length_of_readFrame {reader reader' : IterableSource} {chunk : Bytes}
    (h : readFrame reader = some (.ok chunk, reader')) : chunk.length < 65536 := by
  obtain ⟨length, reader'', -, h⟩ := Source.bind_inv h
  exact lt_of_le_of_lt (length_of_read h) (Bytes.readUInt16BE_getD_lt length 0)

/-- No message is too long for its frame. -/
theorem fits_of_next {p : Peer} {reader : IterableSource} {message : Bytes}
    {s : Peer × IterableSource} (h : Peer.next crypto (p, reader) = some (.ok (some message), s)) :
    Fits message := by
  cases hr : readFrame reader with
  | none =>
      simp only [Peer.next, hr] at h
      cases h
  | some r =>
      obtain ⟨result, reader'⟩ := r
      cases result with
      | error e =>
          simp only [Peer.next, hr] at h
          cases h
      | ok chunk =>
          cases hopen : ssOpen (crypto.aead p.cipher) p.key p.inNonce.bytes chunk with
          | none =>
              simp only [Peer.next, hr, hopen] at h
              cases h
          | some m =>
              simp only [Peer.next, hr, hopen] at h
              cases h
              exact length_of_ssOpen hopen (length_of_readFrame hr)

theorem fits_of_obtained {s : Peer × IterableSource} {messages : List Bytes}
    {result : Except Text Unit} (h : Iterates (Peer.next crypto) s messages result) :
    ∀ message ∈ messages, Fits message := by
  induction h with
  | done => exact fun _ hm => nomatch hm
  | threw => exact fun _ hm => nomatch hm
  | item hn _ ih =>
      intro message hm
      rcases List.mem_cons.mp hm with rfl | hm
      · exact fits_of_next hn
      · exact ih message hm

theorem next_framed {p : Peer} {message rest : Bytes} (hfits : Fits message)
    {reader : IterableSource} (h : IterableSource.source.content reader =
      framed (ssSeal (crypto.aead p.cipher) p.key p.inNonce.bytes message) ++ rest) :
    ∃ reader' : IterableSource, IterableSource.source.content reader' = rest ∧
      Peer.next crypto (p, reader) =
        some (.ok (some message), ({ p with inNonce := p.inNonce.next }, reader')) := by
  have hlen : (ssSeal (crypto.aead p.cipher) p.key p.inNonce.bytes message).length < 65536 := by
    rw [length_ssSeal]
    exact hfits
  obtain ⟨reader', hr, hc⟩ := consumes_readFrame hlen reader rest h
  have hopen : ssOpen (crypto.aead p.cipher) p.key p.inNonce.bytes
      (ssSeal (crypto.aead p.cipher) p.key p.inNonce.bytes message) = some message :=
    ssOpen_ssSeal _ _ _ _
  refine ⟨reader', hc, ?_⟩
  simp only [Peer.next, hr, hopen]

/-- The server obtains the messages of the frames it is sent, however they are cut. -/
theorem next_frames {p : Peer} {messages : List Bytes} (hfits : ∀ m ∈ messages, Fits m)
    {reader : IterableSource}
    (h : IterableSource.source.content reader = frames crypto p.key p.inNonce messages) :
    Iterates (Peer.next crypto) (p, reader) messages (.error "client closed".toList) := by
  refine iterates_of (R := fun s bs => IterableSource.source.content s.2 =
    frames crypto s.1.key s.1.inNonce bs ∧ ∀ m ∈ bs, Fits m) ?_ ?_ (show _ from ⟨h, hfits⟩)
  · intro s hs
    obtain ⟨reader', hr⟩ := readFrame_closed hs.1
    have hn : Peer.next crypto s = some (.error "client closed".toList, (s.1, reader')) := by
      simp only [Peer.next, hr]
      rfl
    exact .threw hn
  · intro s message rest hs
    obtain ⟨hc, hf⟩ := hs
    obtain ⟨reader', hc', hn⟩ := next_framed (hf message List.mem_cons_self) hc
    exact ⟨_, hn, hc', fun m hm => hf m (List.mem_cons_of_mem _ hm)⟩

/-! ## What the client reads -/

/-- A read of the client takes what it asks for and leaves an open socket. -/
theorem take_inv {count : Nat} {s : OpenSocket} {b : Bytes} {c : ClosingSocket}
    (h : ClosingSocket.take count (.of s) = some (.ok b, c)) :
    b.length ≤ count ∧ ∃ s', c = .of s' := by
  by_cases hserved : (Request.read count).servable s.content
  · obtain ⟨bytes, s', hs, -, -, hshare⟩ := settle_served hserved
    rw [ClosingSocket.take, hs] at h
    cases h
    refine ⟨?_, s', rfl⟩
    rw [← hshare]
    exact List.length_take_le _ _
  · obtain ⟨c', hs⟩ := settle_unserved hserved
    rw [ClosingSocket.take, hs] at h
    cases h

theorem fits_of_ssNext {f : SsFace} {s : OpenSocket} {message : Bytes} {c : SsFace × ClosingSocket}
    (h : ssNext crypto (f, .of s) = some (.ok (some message), c)) :
    Fits message ∧ ∃ s', c.2 = .of s' := by
  change Option.bind (ClosingSocket.take 2 (.of s)) _ = _ at h
  obtain ⟨⟨result, c₁⟩, h₁, h⟩ := Option.bind_eq_some_iff.mp h
  cases result with
  | error e => cases h
  | ok length =>
      obtain ⟨-, s₁, rfl⟩ := take_inv h₁
      obtain ⟨⟨result, c₂⟩, h₂, h⟩ := Option.bind_eq_some_iff.mp h
      cases result with
      | error e => cases h
      | ok chunk =>
          obtain ⟨hle, s₂, rfl⟩ := take_inv h₂
          have hlen : chunk.length < 65536 :=
            lt_of_le_of_lt hle (Bytes.readUInt16BE_getD_lt length 0)
          cases hopen : ssOpen (crypto.aead f.cipher) f.key f.inNonce.bytes chunk with
          | none =>
              simp only [SsFace.openChunk, hopen] at h
              cases h
          | some m =>
              simp only [SsFace.openChunk, hopen] at h
              cases h
              exact ⟨length_of_ssOpen hopen hlen, s₂, rfl⟩

theorem fits_of_yielded {c : SsFace × ClosingSocket} {messages : List Bytes}
    {result : Except Text Unit} (h : Iterates (ssNext crypto) c messages result)
    (hopen : ∃ s, c.2 = .of s) : ∀ message ∈ messages, Fits message := by
  induction h with
  | done => exact fun _ hm => nomatch hm
  | threw => exact fun _ hm => nomatch hm
  | @item c c' message rest result hn _ ih =>
      obtain ⟨f, _⟩ := c
      obtain ⟨s, rfl⟩ := hopen
      obtain ⟨hfits, hopen'⟩ := fits_of_ssNext hn
      exact List.forall_mem_cons.mpr ⟨hfits, ih hopen'⟩

/-! ## Both directions -/

/-- What the server gets of the writes and the face of the server's answers. -/
structure RoundTrips (crypto : Crypto) (node : Node)
    (randomBytes : (length : Nat) → Sized length) (host : Text) (port : Number) (f : SsFace)
    (payloads answers : List Bytes) : Prop where
  delivers : Delivers crypto node host port f payloads
  readsBack : ReadsBack crypto (Peer.accept crypto f.cipher (node.password.getD [])
    (randomBytes f.cipher.saltSize).val) f answers

theorem fits_parts (payloads : List Bytes) : ∀ part ∈ payloads.flatMap Vmess.parts,
    part ≠ [] ∧ Fits part := by
  intro part hp
  obtain ⟨payload, -, hp⟩ := List.mem_flatMap.mp hp
  obtain ⟨hne, hle⟩ := Vmess.parts_sized payload part hp
  exact ⟨hne, by rw [Fits]; omega⟩

/-- The frames round-trip exactly when the address and every answer fit theirs. -/
theorem roundTrips_iff_fits {node : Node} {randomBytes : (length : Nat) → Sized length}
    {host : Text} {port : Number} {f : SsFace}
    (h : ssConnect crypto node randomBytes host port = .ok f) (payloads answers : List Bytes) :
    RoundTrips crypto node randomBytes host port f payloads answers ↔
      Fits (encodeAddr host port) ∧ ∀ answer ∈ answers, Fits answer := by
  obtain ⟨cipher, rfl⟩ := ssConnect_inv h
  let salt := randomBytes cipher.saltSize
  let key := ssSubkey crypto (node.password.getD []) cipher salt.val
  constructor
  · intro hround
    obtain ⟨messages, ⟨salt, reader, -, hi⟩, -⟩ :=
      hround.delivers [_] (List.flatten_singleton)
    have hruns := hround.readsBack [some _] (List.flatten_singleton)
    exact ⟨fits_of_obtained hi _ List.mem_cons_self, fits_of_yielded hruns ⟨_, rfl⟩⟩
  · intro hfits
    obtain ⟨haddr, hanswers⟩ := hfits
    constructor
    · intro chunks hc
      rw [writeAll_eq] at hc
      have hstream := hc.trans (sends_socket { cipher, key, socket := salt.val }
        (encodeAddr host port :: payloads.flatMap Vmess.parts))
      obtain ⟨reader, hr, hrest⟩ := consumes_read salt.val (iterableSource chunks) _ hstream
      rw [salt.property] at hr
      have hall : ∀ m ∈ encodeAddr host port :: payloads.flatMap Vmess.parts, Fits m :=
        List.forall_mem_cons.mpr ⟨haddr, fun part hp => (fits_parts payloads part hp).2⟩
      exact ⟨payloads.flatMap Vmess.parts, ⟨salt.val, reader, hr, next_frames hall hrest⟩,
        fun part hp => (fits_parts payloads part hp).1, Vmess.flatten_flatMap_parts payloads⟩
    · intro schedule hs
      refine ssFace_runs hanswers ?_
      rw [ssFrames_eq]
      exact hs

/-- The silent connection sends three bytes and is answered with two chunks. -/
theorem silent_roundTrips :
    RoundTrips plain silentNode zeros "example.com".toList 443 silent [[0x16, 0x03], [0x01]]
      [[0x15], []] :=
  (roundTrips_iff_fits ssConnect_silent _ _).mpr ⟨by decide +kernel, by decide⟩

/-- The header of a name of ASCII characters has four bytes of its own. -/
theorem length_encodeAddr_name {host : Text} (hascii : IsAscii host) (hdot : '.' ∉ host)
    (hcolon : ':' ∉ host) (port : Number) : (encodeAddr host port).length = host.length + 4 := by
  have hip : isIp4 host = false := by
    rw [isIp4, List.splitOn_eq_singleton hdot]
    rfl
  rw [encodeAddr, hip, if_neg Bool.false_ne_true, if_neg hcolon,
    Bytes.utf8Encode_eq_ofAscii hascii, List.length_append, List.length_cons, List.length_cons,
    Bytes.ofAscii, List.length_map]
  rfl

/-- A name of 65516 bytes makes the length of the first frame wrap round to zero. -/
def longName : Text := List.replicate 65516 'a'

theorem long_name_lost :
    ¬ ∀ (crypto : Crypto) (node : Node) (randomBytes : (length : Nat) → Sized length)
      (host : Text) (port : Number) (f : SsFace) (payloads answers : List Bytes),
      ssConnect crypto node randomBytes host port = .ok f → (∀ answer ∈ answers, Fits answer) →
        RoundTrips crypto node randomBytes host port f payloads answers := by
  intro hall
  obtain ⟨f, hf⟩ : ∃ f, ssConnect plain silentNode zeros longName 443 = .ok f := ⟨_, rfl⟩
  have hround := hall plain silentNode zeros longName 443 f [] [] hf (by simp)
  obtain ⟨haddr, -⟩ := (roundTrips_iff_fits hf [] []).mp hround
  have hmem : ∀ c ∈ longName, c = 'a' := fun c hc => List.eq_of_mem_replicate hc
  have hlen : (encodeAddr longName 443).length = longName.length + 4 :=
    length_encodeAddr_name (fun c hc => hmem c hc ▸ by decide)
      (fun hc => absurd (hmem _ hc) (by decide)) (fun hc => absurd (hmem _ hc) (by decide)) 443
  rw [Fits, hlen, longName, List.length_replicate] at haddr
  exact absurd haddr (by decide)

end DshClashProxy.Core.SsPeer
