import DshClashProxy.Core.HysteriaFrame
import DshClashProxy.Go.Conn

/-!
# The Hysteria connection

`hysteriaConn` puts the request frame in front of its first write and takes the response frame off
before its first read, each of them once. In every order of calls the stream carries one request
and what the writes took behind it, and the reads return what stands behind the response. Where
the request or the response fails, every later call of that direction fails alike and touches the
stream no more.
-/
namespace DshClashProxy.Core.Hysteria

open Js Go HysteriaFrame

def pad : Bytes := (List.range 64).map fun i => UInt8.ofNat ('a'.toNat + i % 26)

/-- The buffer of `writeHysteriaTCPRequest`. -/
def requestBuffer (addr payload : Bytes) : Bytes :=
  let buf := appendVarint [] 0x401
  let buf := appendVarint buf (UInt64.ofNat addr.length)
  let buf := buf ++ addr
  let buf := appendVarint buf (UInt64.ofNat pad.length)
  buf ++ pad ++ payload

def writeHysteriaTCPRequest (w : Stream) (fate : Fate) (addr payload : Bytes) :
    Option Error × Stream :=
  let (written, w) := w.write fate (requestBuffer addr payload)
  (written.error, w)

structure HysteriaConn where
  stream : Stream
  dest : Bytes
  /-- The function of the once has run. -/
  reqOnce : Bool := false
  respOnce : Bool := false
  writeErr : Option Error := none
  readErr : Option Error := none

namespace HysteriaConn

/-- What a write does behind the once. -/
def writeBehind (c : HysteriaConn) (first : Bool) (fate : Fate) (p : Bytes) :
    Written × HysteriaConn :=
  match c.writeErr with
  | some e => (⟨0, some e⟩, c)
  | none =>
      if first then (.whole p, c)
      else
        let (w, stream) := c.stream.write fate p
        (w, { c with stream })

def write (c : HysteriaConn) (fate : Fate) (p : Bytes) : Written × HysteriaConn :=
  if c.reqOnce then c.writeBehind false fate p
  else
    let (writeErr, stream) := writeHysteriaTCPRequest c.stream fate c.dest p
    { c with stream, reqOnce := true, writeErr }.writeBehind true fate p

/-- What a read does behind the once. -/
def readBehind (c : HysteriaConn) (size : Nat) : Got × HysteriaConn :=
  match c.readErr with
  | some e => (.bytes [] (some e), c)
  | none =>
      let (g, stream) := c.stream.read size
      (g, { c with stream })

def read (c : HysteriaConn) (size : Nat) : Got × HysteriaConn :=
  if c.respOnce then c.readBehind size
  else
    match c.stream.reads readHysteriaTCPResponse with
    | (.ok (), stream) =>
        { c with stream, respOnce := true, readErr := none }.readBehind size
    | (.error (.error e), stream) =>
        { c with stream, respOnce := true, readErr := some e }.readBehind size
    | (.error .panic, stream) => (.panic, { c with stream, respOnce := true })

end HysteriaConn

def hysteria : Conn HysteriaConn := ⟨HysteriaConn.write, HysteriaConn.read⟩

/-- The connection that `dialHysteria2` returns. -/
def dialed (dest : Bytes) (incoming : Reader) : Process HysteriaConn :=
  { conn := { stream := { incoming }, dest } }

/-- The request frame, which a server reads in front of the payload. -/
def request (dest : Bytes) : Bytes := requestBuffer dest []

/-- The frame as a server reads it, with the readers of this side. -/
def readTCPRequest : Reads Bytes := do
  let id ← readVarint
  if id ≠ 0x401 then throw (.error (.other "not a TCP request".toList))
  let addrLen ← readVarint
  let addr ← readFull addrLen.toNat
  let paddingLen ← readVarint
  skip paddingLen
  return addr

/-- What the writes of a process have come to. -/
structure Upstream (dest : Bytes) (m : Process HysteriaConn) : Prop where
  /-- Nothing is sent before the first write. -/
  silent : m.written = [] → m.conn.stream.sent = []
  /-- One request, and what was taken behind it. -/
  framed : ∀ p w rest, m.written = (p, w) :: rest → w.error = none →
    m.conn.stream.sent = request dest ++ accepted m.written
  /-- A request that failed is neither continued nor sent again. -/
  failed : ∀ p w rest e, m.written = (p, w) :: rest → w.error = some e →
    m.conn.stream.sent <+: request dest ++ p ∧ ∀ x ∈ m.written, x.2 = ⟨0, some e⟩

/-- What the reads of a process have come to, on a stream that started with these bytes. -/
structure Downstream (incoming : Reader) (m : Process HysteriaConn) : Prop where
  /-- Behind a good response everything is handed out, in order and once. -/
  opened : ∀ r, readHysteriaTCPResponse incoming = (.ok (), r) →
    m.crashed = false ∧ returned m.got <+: r.content ∧
      ((∃ x ∈ m.got, x.2.isSome = true) → returned m.got = r.content)
  /-- Behind any other, nothing is. -/
  failed : ∀ e r, readHysteriaTCPResponse incoming = (.error (.error e), r) →
    m.crashed = false ∧ ∀ x ∈ m.got, x = ([], some e)
  crashed : ∀ r, readHysteriaTCPResponse incoming = (.error .panic, r) → m.got = []

/-! ## The request frame -/

theorem appendVarint_append (b : Bytes) (v : UInt64) :
    appendVarint b v = b ++ appendVarint [] v := by
  unfold appendVarint
  split_ifs <;> rfl

theorem requestBuffer_append (dest p : Bytes) : requestBuffer dest p = request dest ++ p := by
  rw [request, requestBuffer, requestBuffer, List.append_nil]

/-- A length below 2 ^ 30 is appended in a form that is read. -/
theorem exactly_length {n : Nat} (h : n < 2 ^ 30) :
    Exactly readVarint (appendVarint [] (UInt64.ofNat n)) (.ok (UInt64.ofNat n)) := by
  have hn : (UInt64.ofNat n).toNat = n := UInt64.toNat_ofNat_of_lt' (h.trans (by decide))
  obtain ⟨form, hfits, hb, -⟩ := @appendVarint_form (UInt64.ofNat n) (by rwa [hn])
  rw [hn] at hfits hb
  rw [hb]
  exact exactly_varint form hfits

theorem exactly_pad : Exactly (skip (UInt64.ofNat pad.length)) pad (.ok ()) :=
  @exactly_skip pad .two (by decide)

/-- A server reads the destination off the request, and nothing behind it. -/
theorem exactly_request {dest : Bytes} (h : dest.length < 2 ^ 30) :
    Exactly readTCPRequest (request dest) (.ok dest) := by
  have hrequest : request dest = appendVarint [] (UInt64.ofNat 0x401) ++
      (appendVarint [] (UInt64.ofNat dest.length) ++ (dest ++
        (appendVarint [] (UInt64.ofNat pad.length) ++ pad))) := by
    rw [request, requestBuffer]
    rw [appendVarint_append (_ ++ dest), appendVarint_append (appendVarint [] 0x401)]
    simp only [List.append_assoc, List.append_nil]
    rfl
  have hn : (UInt64.ofNat dest.length).toNat = dest.length :=
    UInt64.toNat_ofNat_of_lt' (h.trans (by decide))
  rw [hrequest]
  refine (@exactly_length 0x401 (by decide)).bind ?_
  rw [if_neg (by decide)]
  refine (exactly_length h).bind ?_
  refine (exactly_readFull hn.symm).bind ?_
  refine (@exactly_length pad.length (by decide)).bind ?_
  exact exactly_pad.bind_nil (exactly_pure dest)

/-! ## One call -/

/-- The writing side of a process. -/
inductive Wrote (dest : Bytes) (m : Process HysteriaConn) : Prop where
  | fresh (once : m.conn.reqOnce = false) (target : m.conn.dest = dest) (written : m.written = [])
      (sent : m.conn.stream.sent = [])
  | sending (once : m.conn.reqOnce = true) (err : m.conn.writeErr = none)
      (head : ∃ p rest, m.written = (p, .whole p) :: rest)
      (sent : m.conn.stream.sent = request dest ++ accepted m.written)
  | broken (e : Error) (p : Bytes) (once : m.conn.reqOnce = true)
      (err : m.conn.writeErr = some e) (head : ∃ rest, m.written = (p, ⟨0, e⟩) :: rest)
      (same : ∀ x ∈ m.written, x.2 = ⟨0, e⟩) (sent : m.conn.stream.sent <+: request dest ++ p)

/-- The reading side of a process. -/
inductive Heard (incoming : Reader) (m : Process HysteriaConn) : Prop where
  | fresh (once : m.conn.respOnce = false) (alive : m.crashed = false) (got : m.got = [])
      (left : m.conn.stream.incoming = incoming)
  | receiving (r : Reader) (response : readHysteriaTCPResponse incoming = (.ok (), r))
      (once : m.conn.respOnce = true) (err : m.conn.readErr = none) (alive : m.crashed = false)
      (got : r.content = returned m.got ++ m.conn.stream.incoming.content)
      (drained : ∀ x ∈ m.got, x.2.isSome = true → m.conn.stream.incoming.content = [])
  | broken (e : Error) (r : Reader)
      (response : readHysteriaTCPResponse incoming = (.error (.error e), r))
      (once : m.conn.respOnce = true) (err : m.conn.readErr = some e) (alive : m.crashed = false)
      (got : ∀ x ∈ m.got, x = ([], some e))
  | crashed (r : Reader) (response : readHysteriaTCPResponse incoming = (.error .panic, r))
      (dead : m.crashed = true) (got : m.got = [])

namespace HysteriaConn

theorem writeBehind_none {c : HysteriaConn} (h : c.writeErr = none) (fate : Fate) (p : Bytes) :
    c.writeBehind false fate p =
      ((c.stream.write fate p).1, { c with stream := (c.stream.write fate p).2 }) := by
  unfold writeBehind
  split
  · next e he => cases h.symm.trans he
  · rfl

theorem writeBehind_some {c : HysteriaConn} {e : Error} (h : c.writeErr = some e) (first : Bool)
    (fate : Fate) (p : Bytes) : c.writeBehind first fate p = (⟨0, some e⟩, c) := by
  rw [writeBehind, h]

theorem readBehind_none {c : HysteriaConn} (h : c.readErr = none) (size : Nat) :
    c.readBehind size = ((c.stream.read size).1, { c with stream := (c.stream.read size).2 }) := by
  unfold readBehind
  split
  · next e he => cases h.symm.trans he
  · rfl

theorem readBehind_some {c : HysteriaConn} {e : Error} (h : c.readErr = some e) (size : Nat) :
    c.readBehind size = (.bytes [] (some e), c) := by
  rw [readBehind, h]

/-- What a write leaves alone. -/
theorem write_reader (c : HysteriaConn) (fate : Fate) (p : Bytes) :
    (c.write fate p).2.respOnce = c.respOnce ∧ (c.write fate p).2.readErr = c.readErr ∧
      (c.write fate p).2.stream.incoming = c.stream.incoming := by
  have hbehind : ∀ (d : HysteriaConn) first, (d.writeBehind first fate p).2.respOnce = d.respOnce ∧
      (d.writeBehind first fate p).2.readErr = d.readErr ∧
      (d.writeBehind first fate p).2.stream.incoming = d.stream.incoming := by
    intro d first
    unfold writeBehind
    split
    · exact ⟨rfl, rfl, rfl⟩
    · split
      · exact ⟨rfl, rfl, rfl⟩
      · exact ⟨rfl, rfl, Stream.write_incoming _ _ _⟩
  unfold write
  split
  · exact hbehind c false
  · obtain ⟨h1, h2, h3⟩ := hbehind { c with
      stream := (writeHysteriaTCPRequest c.stream fate c.dest p).2, reqOnce := true,
      writeErr := (writeHysteriaTCPRequest c.stream fate c.dest p).1 } true
    exact ⟨h1, h2, h3.trans (Stream.write_incoming _ _ _)⟩

/-- What a read leaves alone. -/
theorem read_writer (c : HysteriaConn) (size : Nat) :
    (c.read size).2.reqOnce = c.reqOnce ∧ (c.read size).2.writeErr = c.writeErr ∧
      (c.read size).2.dest = c.dest ∧ (c.read size).2.stream.sent = c.stream.sent := by
  have hbehind : ∀ d : HysteriaConn, (d.readBehind size).2.reqOnce = d.reqOnce ∧
      (d.readBehind size).2.writeErr = d.writeErr ∧ (d.readBehind size).2.dest = d.dest ∧
      (d.readBehind size).2.stream.sent = d.stream.sent := by
    intro d
    unfold readBehind
    split <;> exact ⟨rfl, rfl, rfl, rfl⟩
  unfold read
  split
  · exact hbehind c
  · split
    · next stream h =>
        have hs : stream.sent = c.stream.sent := congrArg (·.2.sent) h.symm
        obtain ⟨h1, h2, h3, h4⟩ :=
          hbehind { c with stream := stream, respOnce := true, readErr := none }
        exact ⟨h1, h2, h3, h4.trans hs⟩
    · next e stream h =>
        have hs : stream.sent = c.stream.sent := congrArg (·.2.sent) h.symm
        obtain ⟨h1, h2, h3, h4⟩ :=
          hbehind { c with stream := stream, respOnce := true, readErr := some e }
        exact ⟨h1, h2, h3, h4.trans hs⟩
    · next stream h => exact ⟨rfl, rfl, rfl, congrArg (·.2.sent) h.symm⟩

end HysteriaConn

theorem Wrote.write {dest : Bytes} {m : Process HysteriaConn} (hw : Wrote dest m)
    (alive : m.crashed = false) (p : Bytes) (fate : Fate) :
    Wrote dest (m.step hysteria (.write p fate)) := by
  rw [Process.step_write alive]
  cases hw with
  | fresh once target written sent =>
      have hwrite : hysteria.write m.conn fate p =
          { m.conn with stream := (writeHysteriaTCPRequest m.conn.stream fate m.conn.dest p).2,
                        reqOnce := true,
                        writeErr := (writeHysteriaTCPRequest m.conn.stream fate m.conn.dest p).1
            }.writeBehind true fate p := if_neg (by simp [once])
      have hbuffer : requestBuffer m.conn.dest p = request dest ++ p := by
        rw [requestBuffer_append, target]
      rw [hwrite, written]
      cases fate with
      | none =>
          refine .sending rfl rfl ⟨p, [], rfl⟩ ?_
          change m.conn.stream.sent ++ (requestBuffer m.conn.dest p).take _ = _
          rw [hbuffer, sent]
          simp [HysteriaConn.writeBehind, accepted, Written.whole, writeHysteriaTCPRequest,
            Stream.write, Fate.written]
      | some f =>
          obtain ⟨n, e⟩ := f
          refine .broken e p rfl rfl ⟨[], rfl⟩ (by simp [HysteriaConn.writeBehind,
            writeHysteriaTCPRequest, Stream.write, Fate.written]) ?_
          change m.conn.stream.sent ++ (requestBuffer m.conn.dest p).take _ <+: _
          rw [hbuffer, sent]
          exact List.take_prefix _ _
  | sending once err head sent =>
      have hwrite : hysteria.write m.conn fate p = ((m.conn.stream.write fate p).1,
          { m.conn with stream := (m.conn.stream.write fate p).2 }) :=
        (if_pos once).trans (HysteriaConn.writeBehind_none err fate p)
      obtain ⟨q, rest, hq⟩ := head
      rw [hwrite]
      refine .sending once err ⟨q, rest ++ [(p, _)], by rw [hq]; rfl⟩ ?_
      rw [accepted_snoc, ← List.append_assoc, ← sent]
      rfl
  | broken e q once err head same sent =>
      have hwrite : hysteria.write m.conn fate p = (⟨0, some e⟩, m.conn) :=
        (if_pos once).trans (HysteriaConn.writeBehind_some err false fate p)
      obtain ⟨rest, hq⟩ := head
      rw [hwrite]
      refine .broken e q once err ⟨rest ++ [(p, _)], by rw [hq]; rfl⟩ (fun x hx => ?_) sent
      rcases List.mem_append.mp hx with hx | hx
      · exact same x hx
      · rw [List.mem_singleton.mp hx]

theorem Wrote.congr {dest : Bytes} {m m' : Process HysteriaConn} (hw : Wrote dest m)
    (hw' : m'.written = m.written) (h : m'.conn.reqOnce = m.conn.reqOnce ∧
      m'.conn.writeErr = m.conn.writeErr ∧ m'.conn.dest = m.conn.dest ∧
      m'.conn.stream.sent = m.conn.stream.sent) : Wrote dest m' := by
  obtain ⟨h1, h2, h3, h4⟩ := h
  cases hw with
  | fresh once target written sent =>
      exact .fresh (h1.trans once) (h3.trans target) (hw'.trans written) (h4.trans sent)
  | sending once err head sent =>
      exact .sending (h1.trans once) (h2.trans err) (by rwa [hw']) (by rwa [h4, hw'])
  | broken e p once err head same sent =>
      exact .broken e p (h1.trans once) (h2.trans err) (by rwa [hw']) (by rwa [hw']) (by rwa [h4])

/-- A call keeps the writing side in order. -/
theorem Wrote.step {dest : Bytes} {m : Process HysteriaConn} (hw : Wrote dest m) (call : Call) :
    Wrote dest (m.step hysteria call) := by
  by_cases hc : m.crashed = true
  · rwa [Process.step_crashed hc]
  · have alive : m.crashed = false := by simpa using hc
    cases call with
    | write p fate => exact hw.write alive p fate
    | read size =>
        have hkeep := m.conn.read_writer size
        cases hr : hysteria.read m.conn size with
        | mk g conn =>
            have hconn : (m.conn.read size).2 = conn := congrArg Prod.snd hr
            rw [hconn] at hkeep
            cases g with
            | bytes b e =>
                rw [Process.step_read alive hr]
                exact hw.congr rfl hkeep
            | panic =>
                rw [Process.step_panic alive hr]
                exact hw.congr rfl hkeep

/-- One read behind the once of a good response. -/
theorem Heard.receive {incoming r : Reader} {m : Process HysteriaConn}
    (response : readHysteriaTCPResponse incoming = (.ok (), r)) (alive : m.crashed = false)
    {c : HysteriaConn} (once : c.respOnce = true) (err : c.readErr = none)
    (got : r.content = returned m.got ++ c.stream.incoming.content)
    (drained : ∀ x ∈ m.got, x.2.isSome = true → c.stream.incoming.content = []) {size : Nat}
    (hr : hysteria.read m.conn size = c.readBehind size) :
    Heard incoming (m.step hysteria (.read size)) := by
  obtain ⟨b, e, s, hs, hc, he⟩ := c.stream.read_spec size
  rw [HysteriaConn.readBehind_none err, hs] at hr
  rw [Process.step_read alive hr]
  refine .receiving r response once err alive ?_ fun x hx hsome => ?_
  · rw [returned_snoc, List.append_assoc, ← hc]
    exact got
  · rcases List.mem_append.mp hx with hx | hx
    · exact (List.append_eq_nil_iff.mp (hc.symm.trans (drained x hx hsome))).2
    · rw [List.mem_singleton.mp hx] at hsome
      exact he hsome

/-- One read behind the once of a response that failed. -/
theorem Heard.refuse {incoming r : Reader} {m : Process HysteriaConn} {e : Error}
    (response : readHysteriaTCPResponse incoming = (.error (.error e), r))
    (alive : m.crashed = false) {c : HysteriaConn} (once : c.respOnce = true)
    (err : c.readErr = some e) (got : ∀ x ∈ m.got, x = ([], some e)) {size : Nat}
    (hr : hysteria.read m.conn size = c.readBehind size) :
    Heard incoming (m.step hysteria (.read size)) := by
  rw [HysteriaConn.readBehind_some err] at hr
  rw [Process.step_read alive hr]
  refine .broken e r response once err alive fun x hx => ?_
  rcases List.mem_append.mp hx with hx | hx
  · exact got x hx
  · exact List.mem_singleton.mp hx

theorem Heard.read {incoming : Reader} {m : Process HysteriaConn} (hh : Heard incoming m)
    (alive : m.crashed = false) (size : Nat) :
    Heard incoming (m.step hysteria (.read size)) := by
  cases hh with
  | fresh once _ got left =>
      have hread : hysteria.read m.conn size =
          match m.conn.stream.reads readHysteriaTCPResponse with
          | (.ok (), stream) =>
              { m.conn with stream, respOnce := true, readErr := none }.readBehind size
          | (.error (.error e), stream) =>
              { m.conn with stream, respOnce := true, readErr := some e }.readBehind size
          | (.error .panic, stream) => (.panic, { m.conn with stream, respOnce := true }) :=
        if_neg (by simp [once])
      have hreads : m.conn.stream.reads readHysteriaTCPResponse =
          ((readHysteriaTCPResponse incoming).1,
            { m.conn.stream with incoming := (readHysteriaTCPResponse incoming).2 }) := by
        subst incoming
        rfl
      cases hp : readHysteriaTCPResponse incoming with
      | mk result r =>
          rw [hreads, hp] at hread
          match result, hp, hread with
          | .ok (), hp, hread =>
              exact .receive hp alive rfl rfl (by rw [got]; rfl) (by simp [got]) hread
          | .error (.error e), hp, hread =>
              exact .refuse hp alive rfl rfl (by simp [got]) hread
          | .error .panic, hp, hread =>
              rw [Process.step_panic alive hread]
              exact .crashed r hp rfl got
  | receiving r response once err _ got drained =>
      exact .receive response alive once err got drained (if_pos once)
  | broken e r response once err _ got => exact .refuse response alive once err got (if_pos once)
  | crashed r response dead got => exact absurd (dead.symm.trans alive) (by decide)

/-- A call keeps the reading side in order. -/
theorem Heard.step {incoming : Reader} {m : Process HysteriaConn} (hh : Heard incoming m)
    (call : Call) : Heard incoming (m.step hysteria call) := by
  by_cases hc : m.crashed = true
  · rwa [Process.step_crashed hc]
  · have alive : m.crashed = false := by simpa using hc
    cases call with
    | read size => exact hh.read alive size
    | write p fate =>
        obtain ⟨h1, h2, h3⟩ := m.conn.write_reader fate p
        rw [Process.step_write alive]
        cases hh with
        | fresh once alive got left => exact .fresh (h1.trans once) alive got (h3.trans left)
        | receiving r response once err alive got drained =>
            exact .receiving r response (h1.trans once) (h2.trans err) alive
              (got.trans (congrArg (returned m.got ++ ·.content) h3.symm))
              fun x hx hsome => (congrArg Reader.content h3).trans (drained x hx hsome)
        | broken e r response once err alive got =>
            exact .broken e r response (h1.trans once) (h2.trans err) alive got
        | crashed r response dead got => exact .crashed r response dead got

/-! ## Runs -/

theorem wrote_run (dest : Bytes) (incoming : Reader) (calls : List Call) :
    Wrote dest ((dialed dest incoming).run hysteria calls) :=
  Process.run_keeps hysteria (fun _ call h => h.step call)
    (.fresh rfl rfl rfl rfl) calls

theorem heard_run (dest : Bytes) (incoming : Reader) (calls : List Call) :
    Heard incoming ((dialed dest incoming).run hysteria calls) :=
  Process.run_keeps hysteria (fun _ call h => h.step call)
    (.fresh rfl rfl rfl rfl) calls

theorem Wrote.upstream {dest : Bytes} {m : Process HysteriaConn} (h : Wrote dest m) :
    Upstream dest m := by
  cases h with
  | fresh once target written sent =>
      exact ⟨fun _ => sent, fun p w rest hm => by simp [written] at hm,
        fun p w rest e hm => by simp [written] at hm⟩
  | sending once err head sent =>
      obtain ⟨q, rest', hq⟩ := head
      refine ⟨fun hnil => by simp [hq] at hnil, fun _ _ _ _ _ => sent, fun p w rest e hm he => ?_⟩
      cases hq.symm.trans hm
      cases he
  | broken e q once err head same sent =>
      obtain ⟨rest', hq⟩ := head
      refine ⟨fun hnil => by simp [hq] at hnil, fun p w rest hm hw => ?_,
        fun p w rest e' hm he => ?_⟩
      · cases hq.symm.trans hm
        cases hw
      · cases hq.symm.trans hm
        cases he
        exact ⟨sent, same⟩

theorem Heard.downstream {incoming : Reader} {m : Process HysteriaConn} (h : Heard incoming m) :
    Downstream incoming m := by
  cases h with
  | fresh once alive got left =>
      refine ⟨fun r _ => ⟨alive, ?_, ?_⟩, fun e r _ => ⟨alive, ?_⟩, fun r _ => got⟩ <;>
        simp [got, returned]
  | receiving r response once err alive got drained =>
      refine ⟨fun r' hr' => ?_, fun e r' hr' => ?_, fun r' hr' => ?_⟩ <;>
        cases response.symm.trans hr'
      refine ⟨alive, ⟨_, got.symm⟩, fun hend => ?_⟩
      obtain ⟨x, hx, hsome⟩ := hend
      rw [got, drained x hx hsome, List.append_nil]
  | broken e r response once err alive got =>
      refine ⟨fun r' hr' => ?_, fun e r' hr' => ?_, fun r' hr' => ?_⟩ <;>
        cases response.symm.trans hr'
      exact ⟨alive, got⟩
  | crashed r response dead got =>
      refine ⟨fun r' hr' => ?_, fun e r' hr' => ?_, fun r' hr' => got⟩ <;>
        cases response.symm.trans hr'

/-- In every order of calls, whatever the stream takes and brings: one request in front of what
the writes took, and behind the response all that comes in; or the same error for ever. -/
theorem calls_framed (dest : Bytes) (incoming : Reader) (calls : List Call) :
    Upstream dest ((dialed dest incoming).run hysteria calls) ∧
      Downstream incoming ((dialed dest incoming).run hysteria calls) :=
  ⟨(wrote_run dest incoming calls).upstream, (heard_run dest incoming calls).downstream⟩

end DshClashProxy.Core.Hysteria
