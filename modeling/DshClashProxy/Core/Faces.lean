import DshClashProxy.Core.Handshakes
import DshClashProxy.Core.Shadowsocks

/-!
# Faces at the end of the stream

A face reads until its connection closes, and `pumpInto` passes on what it yields. The close
settles `readAny` with null and rejects `read`. So the loops that wait in `readAny` finish,
and the Shadowsocks loop, which waits in `read` for a length, throws.
-/
namespace DshClashProxy.Core.Faces

open Js ProxyServer Lib.ByteSource Transports Handshakes Shadowsocks

/-! ## Sockets that close -/

/-- A buffer on which no request waits. The schedule holds the chunks still to arrive; at each
`none` the reader gets to run. The socket closes behind the schedule, once a request waits. -/
structure ClosingSocket where
  inbound : SocketBuffer := {}
  schedule : List (Option Bytes)
  deriving DecidableEq

/-- The first settlement of an event, if it causes one. -/
def settled (r : SocketBuffer × List Settlement) (schedule : List (Option Bytes)) :
    Option (Outcome × ClosingSocket) :=
  r.2.head?.map fun t => (t.outcome, ⟨r.1, schedule⟩)

/-- Let chunks arrive until the one waiting request is settled, by the close at the latest. -/
def ClosingSocket.awaiting :
    SocketBuffer → List (Option Bytes) → Option (Outcome × ClosingSocket)
  | s, [] => settled (s.step .close) []
  | s, none :: rest => awaiting s rest
  | s, some chunk :: rest =>
      match settled (s.step (.data chunk)) rest with
      | some result => some result
      | none => awaiting (s.step (.data chunk)).1 rest

/-- A request on the buffer and how it is settled. -/
def ClosingSocket.settle (s : ClosingSocket) (r : Request) : Option (Outcome × ClosingSocket) :=
  let (inbound, rest) := OpenSocket.arrive s.inbound s.schedule
  match settled (inbound.step (.call ⟨0, r⟩)) rest with
  | some result => some result
  | none => awaiting (inbound.step (.call ⟨0, r⟩)).1 rest

def ClosingSocket.of (s : OpenSocket) : ClosingSocket := ⟨{ buffer := s.buffer }, s.schedule⟩

/-! ## Generators -/

/-- An async generator. One step yields a chunk, finishes or throws; none never settles. -/
structure Generator where
  State : Type
  start : State
  next : State → Option (Except Text (Option Bytes) × State)

/-- The generator yields these chunks and ends with this result. -/
def Generator.Runs (g : Generator) (chunks : List Bytes) (result : Except Text Unit) : Prop :=
  Iterates g.next g.start chunks result

/-- One turn of the loop of `rawFace`. -/
def rawNext (s : ClosingSocket) : Option (Except Text (Option Bytes) × ClosingSocket) :=
  (s.settle .readAny).map fun
    | (.bytes chunk, s') => (.ok (some chunk), s')
    | (.null, s') => (.ok none, s')
    | (.rejected message, s') => (.error message, s')

def rawFace (s : ClosingSocket) : Generator := ⟨ClosingSocket, s, rawNext⟩

/-- `buffer.read(count)` in a generator, which throws where the read is rejected. -/
def ClosingSocket.take (count : Nat) : ExceptT Text (StateT ClosingSocket Option) Bytes := fun s =>
  (s.settle (.read count)).map fun
    | (.bytes b, s') => (.ok b, s')
    | (.null, s') => (.error "Cannot read properties of null".toList, s')
    | (.rejected message, s') => (.error message, s')

/-- One turn of the loop of `ssConnect`. -/
def ssNext (crypto : Crypto) :
    SsFace × ClosingSocket → Option (Except Text (Option Bytes) × (SsFace × ClosingSocket))
  | (f, s) => do
      match ← ClosingSocket.take 2 s with
      | (.error message, s) => return (.error message, (f, s))
      | (.ok lengthHeader, s) =>
          let length := (Bytes.readUInt16BE lengthHeader 0).getD 0
          match ← ClosingSocket.take length s with
          | (.error message, s) => return (.error message, (f, s))
          | (.ok chunk, s) =>
              match f.openChunk crypto chunk with
              | (some plaintext, f) => return (.ok (some plaintext), (f, s))
              | (none, f) =>
                  return (.error "Unsupported state or unable to authenticate data".toList, (f, s))

def ssFace (crypto : Crypto) (f : SsFace) (s : ClosingSocket) : Generator :=
  ⟨SsFace × ClosingSocket, (f, s), ssNext crypto⟩

/-- `reader.read(count)` in a generator. -/
def takeFrom (count : Nat) : IterableSource.source.Reads Text Bytes := fun reader =>
  some (IterableSource.read reader count)

/-- The rest of `stripHeader` behind the version. -/
def stripAddons : IterableSource.source.Reads Text Unit := do
  let addonsLen ← takeFrom 1
  if 0 < (addonsLen.head?.getD 0).toNat then
    let _ ← takeFrom (addonsLen.head?.getD 0).toNat
  return ()

/-- `stripHeader` of `vlessConnect`. -/
def stripHeader : IterableSource.source.Reads Text Unit := do
  let version ← takeFrom 1
  if version.head? ≠ some 0x00 then
    throw ("vless: unexpected response version ".toList ++ decimal (version.head?.getD 0).toNat)
  stripAddons

/-- The state of the generator of `vlessConnect`. -/
structure VlessReader where
  reader : IterableSource
  headerStripped : Bool := false
  deriving DecidableEq

/-- One turn of the loop of `vlessConnect`, the first with the header in front of it. -/
def vlessNext (v : VlessReader) : Option (Except Text (Option Bytes) × VlessReader) :=
  match if v.headerStripped then some (.ok (), v.reader) else stripHeader v.reader with
  | none => none
  | some (.error message, reader) => some (.error message, ⟨reader, true⟩)
  | some (.ok (), reader) =>
      some (.ok (IterableSource.readAny reader).1, ⟨(IterableSource.readAny reader).2, true⟩)

/-- The face over the chunks that the loop over the raw socket yields. -/
def vlessFace (chunks : List Bytes) : Generator :=
  ⟨VlessReader, ⟨iterableSource chunks, false⟩, vlessNext⟩

/-! ## Sessions -/

inductive NodeType where
  | direct
  | http
  | socks5
  | ss
  | trojan
  | vless
  deriving DecidableEq

/-- A connected node and what its upstream sends: a complete reply, if the transport has one,
and whole data frames. -/
inductive Session where
  | direct (payload : Bytes)
  | http (node : Credentials) (host portText : Text) (reply : HttpReply)
      (established : reply.Established) (payload : Bytes)
  | socks5 (node : Credentials) (host : Text) (port : Number) (reply : Socks5Reply)
      (payload : Bytes)
  | ss (crypto : Crypto) (node : Shadowsocks.Node)
      (randomBytes : (length : Nat) → Sip004.Sized length) (host : Text) (port : Number)
      (f : SsFace) (connected : ssConnect crypto node randomBytes host port = .ok f)
      (parts : List {b : Bytes // b.length + 16 < 65536})
  | trojan (payload : Bytes)
  | vless (addons : {b : Bytes // b.length < 256}) (payload : Bytes)

def Session.type : Session → NodeType
  | direct _ => .direct
  | http .. => .http
  | socks5 .. => .socks5
  | ss .. => .ss
  | trojan _ => .trojan
  | vless .. => .vless

/-- The frames in which the peer of a client sends these parts. -/
def ssFrames (crypto : Crypto) (f : SsFace) : List Bytes → Bytes
  | [] => []
  | part :: rest =>
      framed (ssSeal (crypto.aead f.cipher) f.inbound.1 f.inbound.2 part) ++
        ssFrames crypto { f with inNonce := f.inNonce.next } rest

def Session.stream : Session → Bytes
  | direct payload => payload
  | http _ _ _ reply _ payload => reply.encode ++ payload
  | socks5 _ _ _ reply payload => reply.encode ++ payload
  | ss crypto _ _ _ _ f _ parts => ssFrames crypto f (parts.map Subtype.val)
  | trojan payload => payload
  | vless addons payload => (0x00 :: UInt8.ofNat addons.val.length :: addons.val) ++ payload

def Session.payload : Session → Bytes
  | direct payload => payload
  | http _ _ _ _ _ payload => payload
  | socks5 _ _ _ _ payload => payload
  | ss _ _ _ _ _ _ _ parts => (parts.map Subtype.val).flatten
  | trojan payload => payload
  | vless _ payload => payload

/-- `connectThrough` resolves with a face whose `read` is this generator. -/
inductive Opens (schedule : List (Option Bytes)) : Session → Generator → Prop where
  | direct {payload : Bytes} :
      Opens schedule (.direct payload) (rawFace (.of { schedule }))
  | http {node : Credentials} {host portText : Text} {reply : HttpReply}
      {established : reply.Established} {payload : Bytes} {sent : List Bytes} {s : OpenSocket}
      (h : (httpConnect node host portText : OpenSocket.source.Reads Text (List Bytes))
        { schedule } = some (.ok sent, s)) :
      Opens schedule (.http node host portText reply established payload) (rawFace (.of s))
  | socks5 {node : Credentials} {host : Text} {port : Number} {reply : Socks5Reply}
      {payload : Bytes} {sent : List Bytes} {s : OpenSocket}
      (h : (socks5Connect node host port : OpenSocket.source.Reads Text (List Bytes))
        { schedule } = some (.ok sent, s)) :
      Opens schedule (.socks5 node host port reply payload) (rawFace (.of s))
  | ss {crypto : Crypto} {node : Shadowsocks.Node}
      {randomBytes : (length : Nat) → Sip004.Sized length} {host : Text} {port : Number}
      {f : SsFace} {connected : ssConnect crypto node randomBytes host port = .ok f}
      {parts : List {b : Bytes // b.length + 16 < 65536}} :
      Opens schedule (.ss crypto node randomBytes host port f connected parts)
        (ssFace crypto f (.of { schedule }))
  | trojan {payload : Bytes} :
      Opens schedule (.trojan payload) (rawFace (.of { schedule }))
  | vless {addons : {b : Bytes // b.length < 256}} {payload : Bytes} {chunks : List Bytes}
      (h : (rawFace (.of { schedule })).Runs chunks (.ok ())) :
      Opens schedule (.vless addons payload) (vlessFace chunks)

/-- What `pumpInto` makes of a run of a generator. -/
def pumpInto (chunks : List Bytes) (result : Except Text Unit) : List ProxyServer.Event :=
  chunks.map .upstream ++ [match result with
    | .ok () => .upstreamEnd
    | .error _ => .upstreamError]

/-- The answer was passed on whole and the client socket ended, not destroyed. -/
structure Ended {Node : Type} (c c' : Conn Node) (payload : Bytes) : Prop where
  toClient : c'.toClient = c.toClient ++ payload
  ended : c'.ended = true
  destroyed : c'.destroyed = false

/-- The face yields exactly the payload and finishes, and `pumpInto` ends the client socket. -/
def EndsCleanly (session : Session) (schedule : List (Option Bytes)) : Prop :=
  ∃ g chunks, Opens schedule session g ∧ g.Runs chunks (.ok ()) ∧
    chunks.flatten = session.payload ∧
    ∀ (Node : Type) (server : ProxyServer Node) (c : Conn Node),
      (c.stage = .relaying ∨ c.stage = .answering) → c.destroyed = false →
      Ended c (server.runFrom c (pumpInto chunks (.ok ()))) session.payload

/-! ## Requests on a socket that closes -/

theorem settled_flushed (buffer : Bytes) (r : Request) (schedule : List (Option Bytes)) :
    settled (SocketBuffer.flushed { buffer, waiters := [⟨0, r⟩] }) schedule =
      if r.servable buffer then
        some (.bytes (r.share buffer), .of ⟨buffer.drop (r.share buffer).length, schedule⟩)
      else none := by
  rw [flushed_single]
  split <;> rfl

/-- A waiting request is settled as on an open socket, or else by the close. -/
theorem awaiting_closes (buffer : Bytes) (r : Request) (schedule : List (Option Bytes)) :
    ∃ s', ClosingSocket.awaiting { buffer, waiters := [⟨0, r⟩] } schedule =
      match OpenSocket.awaiting { buffer, waiters := [⟨0, r⟩] } schedule with
      | some (b, s) => some (.bytes b, .of s)
      | none => some ((closing ⟨0, r⟩).outcome, s') := by
  induction schedule generalizing buffer with
  | nil => exact ⟨_, rfl⟩
  | cons c rest ih =>
      cases c with
      | none => exact ih buffer
      | some chunk =>
          have hs : SocketBuffer.step { buffer, waiters := [⟨0, r⟩] } (.data chunk) =
              SocketBuffer.flushed { buffer := buffer ++ chunk, waiters := [⟨0, r⟩] } := rfl
          have hf := flushed_single (buffer ++ chunk) r
          have hset := settled_flushed (buffer ++ chunk) r rest
          simp only [ClosingSocket.awaiting, OpenSocket.awaiting, hs, hset]
          by_cases hb : r.servable (buffer ++ chunk)
          · rw [if_pos hb] at hf ⊢
            rw [hf]
            exact ⟨.of ⟨[], []⟩, rfl⟩
          · rw [if_neg hb] at hf ⊢
            rw [hf]
            exact ih (buffer ++ chunk)

/-- A request is settled as on an open socket, or else by the close. -/
theorem settle_closes (s : OpenSocket) (r : Request) :
    ∃ s', (ClosingSocket.of s).settle r =
      match s.request r with
      | some (b, s) => some (.bytes b, .of s)
      | none => some ((closing ⟨0, r⟩).outcome, s') := by
  obtain ⟨b, rest, ha, -⟩ := arrive_spec s.buffer s.schedule
  have hs : SocketBuffer.step { buffer := b } (.call ⟨0, r⟩) =
      SocketBuffer.flushed { buffer := b, waiters := [⟨0, r⟩] } := rfl
  have hf := flushed_single b r
  have hset := settled_flushed b r rest
  simp only [ClosingSocket.settle, OpenSocket.request, ClosingSocket.of, ha, hs, hset]
  by_cases hb : r.servable b
  · rw [if_pos hb] at hf ⊢
    rw [hf]
    exact ⟨.of ⟨[], []⟩, rfl⟩
  · rw [if_neg hb] at hf ⊢
    rw [hf]
    exact awaiting_closes b r rest

/-- A request that the rest of the stream reaches for is served from its front. -/
theorem settle_served {s : OpenSocket} {r : Request} (h : r.servable s.content) :
    ∃ b s', (ClosingSocket.of s).settle r = some (.bytes b, .of s') ∧
      b ++ s'.content = s.content ∧ r.servable b ∧ r.share b = b := by
  obtain ⟨b, s', hr, hc, hb⟩ := request_served h
  obtain ⟨_, hs⟩ := settle_closes s r
  rw [hr] at hs
  exact ⟨b, s', hs, hc, hb⟩

/-- Any other request waits for the close. -/
theorem settle_unserved {s : OpenSocket} {r : Request} (h : ¬ r.servable s.content) :
    ∃ s', (ClosingSocket.of s).settle r = some ((closing ⟨0, r⟩).outcome, s') := by
  have hr := request_spec s r
  rw [if_neg h] at hr
  obtain ⟨s', hs⟩ := settle_closes s r
  rw [hr] at hs
  exact ⟨s', hs⟩

/-! ## The loops -/

/-- The loop over `readAny` yields what is left of the stream and finishes. -/
theorem rawFace_runs (s : OpenSocket) :
    ∃ chunks, (rawFace (.of s)).Runs chunks (.ok ()) ∧ chunks.flatten = s.content := by
  refine iterates_content (R := fun c content => ∃ s, c = .of s ∧ s.content = content)
    (fun c content hc => ?_) ⟨s, rfl, rfl⟩
  obtain ⟨s, rfl, rfl⟩ := hc
  by_cases hr : Request.readAny.servable s.content
  · obtain ⟨b, s', hs, hc, hne, -⟩ := settle_served hr
    refine Or.inr ⟨b, .of s', s'.content, ?_, hne, hc.symm, s', rfl, rfl⟩
    change Option.map _ _ = _
    rw [hs]
    rfl
  · obtain ⟨s', hs⟩ := settle_unserved hr
    have hn : rawNext (.of s) = some (.ok none, s') := by
      rw [rawNext, hs]
      rfl
    exact Or.inl ⟨not_not.mp hr, .done hn⟩

theorem take_of_read {s s' : OpenSocket} {count : Nat} {b : Bytes}
    (h : s.read count = some (b, s')) :
    ClosingSocket.take count (.of s) = some (.ok b, .of s') := by
  obtain ⟨_, hs⟩ := settle_closes s (.read count)
  have hr : s.request (.read count) = some (b, s') := h
  rw [hr] at hs
  rw [ClosingSocket.take, hs]
  rfl

theorem ssNext_of_readChunk {crypto : Crypto} {f f' : SsFace} {s s' : OpenSocket}
    {plaintext : Bytes}
    (h : f.readChunk crypto OpenSocket.source s = some (plaintext, f', s')) :
    ssNext crypto (f, .of s) = some (.ok (some plaintext), (f', .of s')) := by
  obtain ⟨⟨lengthHeader, s₁⟩, h₁, h⟩ := Option.bind_eq_some_iff.mp h
  obtain ⟨length, hl, h⟩ := Option.bind_eq_some_iff.mp h
  obtain ⟨⟨chunk, s₂⟩, h₂, h⟩ := Option.bind_eq_some_iff.mp h
  obtain ⟨p, hp, he⟩ := Option.bind_eq_some_iff.mp h
  cases he
  have ho : f.openChunk crypto chunk = (some plaintext, (f.openChunk crypto chunk).2) :=
    Prod.ext hp rfl
  simp only [ssNext, take_of_read h₁, hl, Option.getD_some, take_of_read h₂,
    Option.bind_eq_bind, Option.bind_some]
  rw [ho]
  rfl

/-- The Shadowsocks loop yields the parts, and the close rejects the read of the next
length. -/
theorem ssFace_runs {crypto : Crypto} {f : SsFace} {parts : List Bytes}
    (hp : ∀ b ∈ parts, b.length + 16 < 65536) {s : OpenSocket}
    (hs : s.content = ssFrames crypto f parts) :
    (ssFace crypto f (.of s)).Runs parts
      (.error "connection closed while reading".toList) := by
  refine iterates_of (R := fun c bs => ∃ s, c.2 = ClosingSocket.of s ∧
    s.content = ssFrames crypto c.1 bs ∧ ∀ b ∈ bs, b.length + 16 < 65536)
    ?_ ?_ (show _ from ⟨s, rfl, hs, hp⟩)
  · rintro ⟨f, _⟩ ⟨s, rfl, hs, -⟩
    have hn : ¬ (Request.read 2).servable s.content := by
      rw [hs]
      exact Nat.not_succ_le_zero 1
    obtain ⟨s', hc⟩ := settle_unserved hn
    have ht : ClosingSocket.take 2 (.of s) =
        some (.error "connection closed while reading".toList, s') := by
      rw [ClosingSocket.take, hc]
      rfl
    have hn : ssNext crypto (f, .of s) =
        some (.error "connection closed while reading".toList, (f, s')) := by
      change Option.bind (ClosingSocket.take 2 (.of s)) _ = _
      rw [ht]
      rfl
    exact .threw hn
  · rintro ⟨f, _⟩ part rest ⟨s, rfl, hs, hl⟩
    have hpart := hl part List.mem_cons_self
    obtain ⟨s', hr, hc⟩ : ∃ s', f.readChunk crypto OpenSocket.source s =
        some (part, { f with inNonce := f.inNonce.next }, s') ∧
        OpenSocket.source.content s' = ssFrames crypto { f with inNonce := f.inNonce.next } rest :=
      readChunk_framed crypto hpart hs
    exact ⟨_, ssNext_of_readChunk hr, s', rfl, hc, fun b hb => hl b (List.mem_cons_of_mem _ hb)⟩

theorem consumes_takeFrom (front : Bytes) :
    Source.Consumes (takeFrom front.length) front front := by
  intro reader rest h
  have hle : front.length ≤ (reader.pending ++ reader.iterator.flatten).length := by
    change _ = _ at h
    rw [show reader.pending ++ reader.iterator.flatten = front ++ rest from h,
      List.length_append]
    exact Nat.le_add_right _ _
  obtain ⟨s', hr, hc⟩ := readFrom_of_le front.length reader.pending reader.iterator hle
  rw [show reader.pending ++ reader.iterator.flatten = front ++ rest from h] at hr hc
  rw [List.take_left] at hr
  rw [List.drop_left] at hc
  exact ⟨s', congrArg some hr, hc⟩

theorem consumes_stripHeader (addons : {b : Bytes // b.length < 256}) :
    Source.Consumes stripHeader (0x00 :: UInt8.ofNat addons.val.length :: addons.val) () := by
  obtain ⟨addons, hl⟩ := addons
  have hlen : (UInt8.ofNat addons.length).toNat = addons.length :=
    UInt8.toNat_ofNat_of_lt' hl
  refine (consumes_takeFrom [0x00]).bind (?_ : Source.Consumes stripAddons _ _)
  refine (consumes_takeFrom [UInt8.ofNat addons.length]).bind ?_
  simp only [List.head?_cons, Option.getD_some, hlen]
  by_cases h0 : 0 < addons.length
  · rw [if_pos h0]
    exact (consumes_takeFrom addons).bind_nil (Source.consumes_pure ())
  · rw [if_neg h0]
    have hnil : addons = [] := List.length_eq_zero_iff.mp (Nat.eq_zero_of_not_pos h0)
    rw [hnil]
    exact Source.consumes_pure ()

/-- Once the header is stripped, the reader yields what it holds and then the chunks. -/
theorem vlessNext_runs (reader : IterableSource) :
    ∃ chunks, Iterates vlessNext ⟨reader, true⟩ chunks (.ok ()) ∧
      chunks.flatten = reader.pending ++ reader.iterator.flatten := by
  have hiter : ∀ iterator : List Bytes,
      Iterates vlessNext ⟨⟨[], iterator⟩, true⟩ iterator (.ok ()) := by
    intro iterator
    induction iterator with
    | nil =>
        have hn : vlessNext ⟨⟨[], []⟩, true⟩ = some (.ok none, ⟨⟨[], []⟩, true⟩) := rfl
        exact .done hn
    | cons value rest ih => exact .item rfl ih
  obtain ⟨pending, iterator⟩ := reader
  cases pending with
  | nil => exact ⟨iterator, hiter iterator, rfl⟩
  | cons b pending => exact ⟨(b :: pending) :: iterator, .item rfl (hiter iterator), rfl⟩

/-- The loop of `vlessConnect` strips the header and yields what is behind it. -/
theorem vlessFace_runs {chunks : List Bytes} {addons : {b : Bytes // b.length < 256}}
    {payload : Bytes}
    (h : chunks.flatten = (0x00 :: UInt8.ofNat addons.val.length :: addons.val) ++ payload) :
    ∃ out, (vlessFace chunks).Runs out (.ok ()) ∧ out.flatten = payload := by
  obtain ⟨reader, hs, hc⟩ := consumes_stripHeader addons (iterableSource chunks) payload h
  obtain ⟨out, hi, hf⟩ := vlessNext_runs reader
  refine ⟨out, ?_, hf.trans hc⟩
  have hnext : vlessNext ⟨iterableSource chunks, false⟩ = vlessNext ⟨reader, true⟩ := by
    simp only [vlessNext, hs]
    rfl
  change Iterates vlessNext _ _ _
  cases hi with
  | done hn => exact .done (hnext.trans hn)
  | item hn hi => exact .item (hnext.trans hn) hi

/-! ## The client socket -/

theorem runFrom_upstream {Node : Type} (server : ProxyServer Node) {c : Conn Node}
    (hc : c.stage = .relaying ∨ c.stage = .answering) (hd : c.destroyed = false)
    (chunks : List Bytes) :
    ∃ down, server.runFrom c (chunks.map .upstream) =
      { c with toClient := c.toClient ++ chunks.flatten, down } := by
  induction chunks generalizing c with
  | nil => exact ⟨c.down, by simp [ProxyServer.runFrom]⟩
  | cons chunk rest ih =>
      have hstep : server.step c (.upstream chunk) = c.pump chunk := by
        rcases hc with h | h <;> simp only [step, h]
      have hpump : c.pump chunk =
          { c with toClient := c.toClient ++ chunk, down := c.down + chunk.length } := by
        rw [Conn.pump, hd]
        rfl
      obtain ⟨down, hr⟩ := ih (c := c.pump chunk) (by rw [hpump]; exact hc)
        (by rw [hpump]; exact hd)
      refine ⟨down, ?_⟩
      rw [List.map_cons, ProxyServer.runFrom, List.foldl_cons, hstep]
      change server.runFrom (c.pump chunk) _ = _
      rw [hr, hpump, List.flatten_cons, List.append_assoc]

theorem pumpInto_ended {Node : Type} (server : ProxyServer Node) {c : Conn Node}
    (hc : c.stage = .relaying ∨ c.stage = .answering) (hd : c.destroyed = false)
    (chunks : List Bytes) :
    Ended c (server.runFrom c (pumpInto chunks (.ok ()))) chunks.flatten := by
  obtain ⟨down, hr⟩ := runFrom_upstream server hc hd chunks
  have hend : ∀ c' : Conn Node, c'.stage = .relaying ∨ c'.stage = .answering →
      server.step c' .upstreamEnd = c'.pumpEnd := by
    rintro c' (h | h) <;> simp only [step, h]
  rw [pumpInto, ProxyServer.runFrom, List.foldl_append]
  change Ended c (server.step (server.runFrom c _) .upstreamEnd) _
  rw [hr, hend { c with toClient := c.toClient ++ chunks.flatten, down } hc]
  exact ⟨rfl, by simp [Conn.pumpEnd, hd], hd⟩

/-! ## Clean ends -/

/-- A face that yields the payload and finishes makes a clean end. -/
theorem endsCleanly_of {session : Session} {schedule : List (Option Bytes)} {g : Generator}
    {chunks : List Bytes} (ho : Opens schedule session g) (hr : g.Runs chunks (.ok ()))
    (hf : chunks.flatten = session.payload) : EndsCleanly session schedule := by
  refine ⟨g, chunks, ho, hr, hf, fun Node server c hc hd => ?_⟩
  rw [← hf]
  exact pumpInto_ended server hc hd chunks

/-- The close makes the Shadowsocks face throw behind whatever whole chunks came. -/
theorem ss_never_endsCleanly {crypto : Crypto} {node : Shadowsocks.Node}
    {randomBytes : (length : Nat) → Sip004.Sized length} {host : Text} {port : Number}
    {f : SsFace} {connected : ssConnect crypto node randomBytes host port = .ok f}
    {parts : List {b : Bytes // b.length + 16 < 65536}} {schedule : List (Option Bytes)}
    (hs : (schedule.filterMap id).flatten = ssFrames crypto f (parts.map Subtype.val)) :
    ¬ EndsCleanly (.ss crypto node randomBytes host port f connected parts) schedule := by
  have hparts : ∀ b ∈ parts.map Subtype.val, b.length + 16 < 65536 := by
    intro b hb
    obtain ⟨part, -, rfl⟩ := List.mem_map.mp hb
    exact part.property
  rintro ⟨g, chunks, ho, hr, -⟩
  cases ho
  have hcontent : OpenSocket.content { schedule } = ssFrames crypto f (parts.map Subtype.val) := hs
  have hthrow := ssFace_runs hparts hcontent
  cases (hr.unique hthrow).2

/-- Exactly the faces that are not Shadowsocks end cleanly, however the stream is cut. -/
theorem endsCleanly_iff (session : Session) (schedule : List (Option Bytes))
    (hs : (schedule.filterMap id).flatten = session.stream) :
    EndsCleanly session schedule ↔ session.type ≠ .ss := by
  have hcontent : OpenSocket.content { schedule } = session.stream := hs
  cases session with
  | direct payload =>
      refine iff_of_true ?_ (by rw [Session.type]; decide)
      obtain ⟨chunks, hr, hf⟩ := rawFace_runs { schedule }
      exact endsCleanly_of .direct hr (hf.trans hcontent)
  | http node host portText reply established payload =>
      refine iff_of_true ?_ (by rw [Session.type]; decide)
      have hreply : Source.Consumes (httpConnect node host portText :
          OpenSocket.source.Reads Text (List Bytes)) reply.encode _ :=
        consumes_httpConnect node host portText established
      obtain ⟨s, hh, ht⟩ := hreply { schedule } payload hcontent
      obtain ⟨chunks, hr, hf⟩ := rawFace_runs s
      exact endsCleanly_of (.http hh) hr (hf.trans ht)
  | socks5 node host port reply payload =>
      refine iff_of_true ?_ (by rw [Session.type]; decide)
      have hreply : Source.Consumes (socks5Connect node host port :
          OpenSocket.source.Reads Text (List Bytes)) reply.encode _ :=
        consumes_socks5Connect node host port reply
      obtain ⟨s, hh, ht⟩ := hreply { schedule } payload hcontent
      obtain ⟨chunks, hr, hf⟩ := rawFace_runs s
      exact endsCleanly_of (.socks5 hh) hr (hf.trans ht)
  | trojan payload =>
      refine iff_of_true ?_ (by rw [Session.type]; decide)
      obtain ⟨chunks, hr, hf⟩ := rawFace_runs { schedule }
      exact endsCleanly_of .trojan hr (hf.trans hcontent)
  | vless addons payload =>
      refine iff_of_true ?_ (by rw [Session.type]; decide)
      obtain ⟨chunks, hr, hf⟩ := rawFace_runs { schedule }
      obtain ⟨out, hr', hf'⟩ := vlessFace_runs (hf.trans hcontent)
      exact endsCleanly_of (.vless hr) hr' hf'
  | ss crypto node randomBytes host port f connected parts =>
      exact iff_of_false (ss_never_endsCleanly hs) (fun h => h rfl)

/-- A SOCKS5 reply and the answer behind it come in two chunks. -/
theorem endsCleanly_socks5 :
    EndsCleanly (.socks5 {} "a.b".toList 443 namedBind [0x16, 0x03])
      [some [0x05, 0x02, 0x01, 0x00, 0x05, 0x00, 0x00, 0x03, 0x02, 0x61, 0x62, 0x00], none,
        some [0x50, 0x16, 0x03]] :=
  (endsCleanly_iff _ _ (by decide)).mpr (by decide)

/-- A Shadowsocks server closes behind one whole chunk. -/
theorem ss_throws_at_close :
    ¬ ∀ (session : Session) (schedule : List (Option Bytes)),
      (schedule.filterMap id).flatten = session.stream → EndsCleanly session schedule := by
  intro h
  have hs := h (.ss plain silentNode zeros "example.com".toList 443 silent ssConnect_silent
    [⟨[0x15], by decide⟩]) [some (ssFrames plain silent [[0x15]])] (List.append_nil _)
  exact ss_never_endsCleanly (List.append_nil _) hs

end DshClashProxy.Core.Faces
