import DshClashProxy.Core.Vless
import DshClashProxy.Go.Copy
import DshClashProxy.Go.HostPort

/-!
# The VLESS connection of the native connector

`vlessConn` puts its request in front of the first write that succeeds and takes the response
header off before its reads. Unlike the Hysteria connection it keeps no error: a write that fails
leaves the request to the next one, which sends it again from its start.
-/
namespace DshClashProxy.Core.Reality

open Js Go Vless

structure VlessConn where
  conn : Stream
  request : Bytes
  requestWritten : Bool := false
  responseRead : Bool := false

def badVersion (version : UInt8) : Error :=
  .other ("vless bad response version ".toList ++ Nat.toDigits 10 version.toNat)

/-- What `Read` takes off before the first bytes it returns. -/
def readResponse : Reads Unit := do
  let head ← readFull 2
  if head.getD 0 0 ≠ 0x00 then throw (.error (badVersion (head.getD 0 0)))
  else if 0 < head.getD 1 0 then
    let _ ← readFull (head.getD 1 0).toNat
    return ()
  else return ()

namespace VlessConn

def write (c : VlessConn) (fate : Fate) (b : Bytes) : Written × VlessConn :=
  if !c.requestWritten then
    let (w, conn) := c.conn.write fate (c.request ++ b)
    match w.error with
    | some e => (⟨0, some e⟩, { c with conn })
    | none => (.whole b, { c with conn, requestWritten := true })
  else
    let (w, conn) := c.conn.write fate b
    (w, { c with conn })

def read (c : VlessConn) (size : Nat) : Got × VlessConn :=
  if !c.responseRead then
    match c.conn.reads readResponse with
    | (.ok (), conn) =>
        let (g, conn) := conn.read size
        (g, { c with conn, responseRead := true })
    | (.error (.error e), conn) => (.bytes [] (some e), { c with conn })
    | (.error .panic, conn) => (.panic, { c with conn })
  else
    let (g, conn) := c.conn.read size
    (g, { c with conn })

end VlessConn

def vless : Conn VlessConn := ⟨VlessConn.write, VlessConn.read⟩

/-- `newVlessConn`. A bad uuid is a panic. -/
def newVlessConn (parseIP : Bytes → Option Bytes) (conn : Stream) (node : NodeConfig)
    (dest : Bytes) : Except Fault VlessConn :=
  match splitHostPort dest with
  | .error message => .error (.error (.other message))
  | .ok (host, portStr) =>
      match buildVlessRequest parseIP node host (uint16 (sscanf portStr)) with
      | none => .error .panic
      | some request => .ok { conn, request }

/-! ## The request as a server reads it -/

inductive Address where
  | ip4 (octets : Bytes)
  | domain (name : Bytes)
  | ip6 (octets : Bytes)
  deriving DecidableEq

structure Request where
  uuid : Bytes
  addons : Bytes
  command : UInt8
  port : Nat
  address : Address
  deriving DecidableEq

def malformed : Error := .other "malformed request".toList

def readAddress (kind : UInt8) : Reads Address :=
  if kind = 0x01 then do
    let octets ← readFull 4
    return .ip4 octets
  else if kind = 0x02 then do
    let length ← readFull 1
    let name ← readFull (length.getD 0 0).toNat
    return .domain name
  else if kind = 0x03 then do
    let octets ← readFull 16
    return .ip6 octets
  else throw (.error malformed)

/-- The request by its fields, each of the length that is read in front of it. -/
def readRequest : Reads Request := do
  let head ← readFull 18
  if head.getD 0 0 ≠ 0x00 then throw (.error malformed)
  else
    let addons ← readFull (head.getD 17 0).toNat
    let fixed ← readFull 4
    let address ← readAddress (fixed.getD 3 0)
    return ⟨head.subarray 1 17, addons, fixed.getD 0 0, Bytes.natBE (fixed.subarray 1 3), address⟩

/-- The address that a host stands for. -/
def addressOf (parseIP : Bytes → Option Bytes) (host : Bytes) : Address :=
  match parseIP host with
  | some ip =>
      match to4 ip with
      | some ip4 => .ip4 ip4
      | none => .ip6 (to16 ip)
  | none => .domain host

/-- An IP address as `net.ParseIP` returns it. -/
def Sixteen (parseIP : Bytes → Option Bytes) : Prop :=
  ∀ host ip, parseIP host = some ip → ip.length = 16

/-- The length of a host fits its byte, unless it is an address. -/
def Short (parseIP : Bytes → Option Bytes) (host : Bytes) : Prop :=
  parseIP host = none → host.length < 256

theorem length_to4 {ip ip4 : Bytes} (h : to4 ip = some ip4) : ip4.length = 4 := by
  unfold to4 at h
  split_ifs at h with h4 h16
  · rw [← Option.some.inj h, h4]
  · have hl : ip.length = 16 := by
      simp only [Bool.and_eq_true, decide_eq_true_eq] at h16
      exact h16.1
    rw [← Option.some.inj h, List.length_drop, hl]

/-- The address is read back, behind its type. -/
theorem exactly_address {parseIP : Bytes → Option Bytes} (hip : Sixteen parseIP) {host : Bytes}
    (hs : Short parseIP host) :
    ∃ kind body, encodeVlessAddr parseIP host = kind :: body ∧
      Exactly (readAddress kind) body (.ok (addressOf parseIP host)) := by
  unfold encodeVlessAddr addressOf
  cases hp : parseIP host with
  | none =>
      have hlt := hs hp
      have hn : host.length = (UInt8.ofNat host.length).toNat := by
        rw [UInt8.toNat_ofNat', Nat.mod_eq_of_lt hlt]
      refine ⟨0x02, UInt8.ofNat host.length :: host, rfl, ?_⟩
      refine (@exactly_readFull [UInt8.ofNat host.length] 1 rfl).bind ?_
      exact (exactly_readFull hn).bind_nil (exactly_pure _)
  | some ip =>
      have h16 := hip host ip hp
      cases h4 : to4 ip with
      | some ip4 =>
          refine ⟨0x01, ip4, by simp only [h4]; rfl, ?_⟩
          simp only [h4]
          exact (exactly_readFull (length_to4 h4)).bind_nil (exactly_pure _)
      | none =>
          have hto : to16 ip = ip := by
            rw [to16, if_neg (by omega), if_pos h16]
          refine ⟨0x03, to16 ip, by simp only [h4]; rfl, ?_⟩
          simp only [h4, hto]
          exact (exactly_readFull h16).bind_nil (exactly_pure _)

/-- The request of a node is read back with the uuid, the addons, the port and the address. -/
theorem exactly_readRequest {parseIP : Bytes → Option Bytes} (hip : Sixteen parseIP)
    {host : Bytes} (hs : Short parseIP host) {node : NodeConfig} {uuid : Bytes}
    (hu : decodeString (stringsReplace (Bytes.ofAscii "-".toList) [] node.uuid 0) = some uuid)
    (hl : uuid.length = 16) {port : Nat} (hp : port < 65536) :
    ∃ request, buildVlessRequest parseIP node host (UInt16.ofNat port) = some request ∧
      Exactly readRequest request
        (.ok ⟨uuid, addonsOf node.flow, 0x01, port, addressOf parseIP host⟩) := by
  obtain ⟨kind, body, haddr, haddress⟩ := exactly_address hip hs
  have haddons : (addonsOf node.flow).length < 256 := by
    unfold addonsOf
    dsimp only
    split
    · rw [appendUvarint, if_neg (by decide)]
      decide
    · decide
  have hn : (addonsOf node.flow).length = (UInt8.ofNat (addonsOf node.flow).length).toNat := by
    rw [UInt8.toNat_ofNat', Nat.mod_eq_of_lt haddons]
  have hport : Bytes.natBE (Bytes.uint16BE port) = port := Bytes.natBE_uint16BE hp
  refine ⟨_, by rw [buildVlessRequest, hu]; rfl, ?_⟩
  have hsplit : ((0x00 :: uuid ++ UInt8.ofNat (addonsOf node.flow).length :: addonsOf node.flow :
      Bytes) ++ ([0x01, (UInt16.ofNat port >>> 8).toUInt8, (UInt16.ofNat port &&& 0xff).toUInt8] :
        Bytes) ++ encodeVlessAddr parseIP host) =
      (0x00 :: uuid ++ [UInt8.ofNat (addonsOf node.flow).length]) ++ (addonsOf node.flow ++
        ((0x01 :: (Bytes.uint16BE port ++ [kind])) ++ body)) := by
    rw [haddr, ← portBytes hp]
    simp
  have hhead : (0x00 :: uuid ++ [UInt8.ofNat (addonsOf node.flow).length] : Bytes).length = 18 := by
    simp [hl]
  have hlast : (0x00 :: uuid ++ [UInt8.ofNat (addonsOf node.flow).length] : Bytes).getD 17 0 =
      UInt8.ofNat (addonsOf node.flow).length := by
    simp [hl]
  have huuid : Bytes.subarray (0x00 :: uuid ++ [UInt8.ofNat (addonsOf node.flow).length]) 1 17 =
      uuid := by
    rw [Bytes.subarray, List.take_left' (by simp [hl])]
    rfl
  rw [hsplit]
  refine (exactly_readFull hhead).bind ?_
  rw [if_neg (by simp), hlast]
  refine (exactly_readFull hn).bind ?_
  refine (@exactly_readFull (0x01 :: (Bytes.uint16BE port ++ [kind])) 4 rfl).bind ?_
  refine haddress.bind_nil ?_
  rw [huuid]
  have hfixed : Bytes.natBE (Bytes.subarray (0x01 :: (Bytes.uint16BE port ++ [kind])) 1 3) = port :=
    hport
  rw [hfixed]
  exact exactly_pure _

/-! ## Calls -/

/-- A write that sent some of the request and its bytes, and failed. -/
structure Attempt (request sent : Bytes) (w : Bytes × Written) : Prop where
  front : sent <+: request ++ w.1
  none_taken : w.2.n = 0
  failed : w.2.error.isSome = true

/-- What the writes of a process have come to: those that failed before one succeeded, and that
one with those behind it. -/
structure Upstream (request : Bytes) (m : Process VlessConn) (attempts : List Bytes)
    (failed rest : List (Bytes × Written)) : Prop where
  written : m.written = failed ++ rest
  attempted : List.Forall₂ (Attempt request) attempts failed
  first : ∀ w ∈ rest.head?, w.2 = .whole w.1
  sent : m.conn.conn.sent =
    attempts.flatten ++ if rest = [] then [] else request ++ accepted rest
  request : m.conn.request = request
  requestWritten : m.conn.requestWritten = !rest.isEmpty

/-- What the reads of a process have come to, on a stream that started with these bytes. -/
structure Downstream (incoming : Reader) (m : Process VlessConn) : Prop where
  /-- Behind a response header everything is handed out, in order and once. -/
  opened : ∀ r, readResponse incoming = (.ok (), r) →
    m.crashed = false ∧ returned m.got <+: r.content ∧
      ((∃ x ∈ m.got, x.2.isSome = true) → returned m.got = r.content)
  /-- The first read finds that there is none. -/
  refused : ∀ e r, readResponse incoming = (.error (.error e), r) →
    ∀ x rest, m.got = x :: rest → x = ([], some e)

namespace VlessConn

/-- The request goes out with a write that succeeds, and stays with one that fails. -/
theorem write_first {c : VlessConn} (h : c.requestWritten = false) (fate : Fate) (b : Bytes) :
    c.write fate b =
      match fate with
      | none => (.whole b, { c with conn := (c.conn.write none (c.request ++ b)).2,
                                    requestWritten := true })
      | some f =>
          (⟨0, some f.2⟩, { c with conn := (c.conn.write (some f) (c.request ++ b)).2 }) := by
  rw [write, h]
  cases fate <;> rfl

theorem write_later {c : VlessConn} (h : c.requestWritten = true) (fate : Fate) (b : Bytes) :
    c.write fate b = ((c.conn.write fate b).1, { c with conn := (c.conn.write fate b).2 }) := by
  rw [write, h]
  rfl

/-- What a write leaves alone. -/
theorem write_reader (c : VlessConn) (fate : Fate) (b : Bytes) :
    (c.write fate b).2.responseRead = c.responseRead ∧
      (c.write fate b).2.conn.incoming = c.conn.incoming := by
  cases h : c.requestWritten with
  | true =>
      rw [write_later h]
      exact ⟨rfl, rfl⟩
  | false =>
      rw [write_first h]
      cases fate <;> exact ⟨rfl, rfl⟩

/-- What a read leaves alone. -/
theorem read_writer (c : VlessConn) (size : Nat) :
    (c.read size).2.requestWritten = c.requestWritten ∧ (c.read size).2.request = c.request ∧
      (c.read size).2.conn.sent = c.conn.sent := by
  unfold read
  split
  · have hsent := Stream.reads_sent c.conn readResponse
    split
    · next conn h =>
        rw [h] at hsent
        exact ⟨rfl, rfl, hsent⟩
    · next e conn h =>
        rw [h] at hsent
        exact ⟨rfl, rfl, hsent⟩
    · next conn h =>
        rw [h] at hsent
        exact ⟨rfl, rfl, hsent⟩
  · exact ⟨rfl, rfl, rfl⟩

end VlessConn

theorem Upstream.write {request : Bytes} {m : Process VlessConn} {attempts : List Bytes}
    {failed rest : List (Bytes × Written)} (h : Upstream request m attempts failed rest)
    (alive : m.crashed = false) (b : Bytes) (fate : Fate) :
    ∃ attempts failed rest,
      Upstream request (m.step vless (.write b fate)) attempts failed rest := by
  rw [Process.step_write alive]
  have hsent := h.sent
  cases rest with
  | cons first rest =>
      have hw : vless.write m.conn fate b = _ :=
        VlessConn.write_later (h.requestWritten.trans rfl) fate b
      rw [hw]
      refine ⟨attempts, failed, first :: (rest ++ [(b, (m.conn.conn.write fate b).1)]), ?_,
        h.attempted, h.first, ?_, h.request, h.requestWritten⟩
      · rw [h.written, List.append_assoc]
        rfl
      · rw [if_neg (List.cons_ne_nil _ _)] at hsent ⊢
        rw [← List.cons_append, accepted_snoc]
        change m.conn.conn.sent ++ b.take (m.conn.conn.write fate b).1.n = _
        rw [hsent, List.append_assoc, List.append_assoc]
  | nil =>
      have hw : vless.write m.conn fate b = _ :=
        VlessConn.write_first (h.requestWritten.trans rfl) fate b
      rw [if_pos rfl, List.append_nil] at hsent
      have hwritten : m.written = failed := h.written.trans (List.append_nil _)
      rw [hw, hwritten]
      cases fate with
      | none =>
          refine ⟨attempts, failed, [(b, .whole b)], rfl, h.attempted, ?_, ?_, h.request, rfl⟩
          · rintro w hw
            cases hw
            rfl
          · rw [if_neg (List.cons_ne_nil _ _)]
            change m.conn.conn.sent ++ (m.conn.request ++ b).take _ = _
            rw [hsent, h.request]
            simp [accepted, Written.whole, Fate.written]
      | some f =>
          refine ⟨attempts ++ [(request ++ b).take (Fate.written (some f) (request ++ b)).n],
            failed ++ [(b, ⟨0, some f.2⟩)], [], (List.append_nil _).symm, ?_, ?_, ?_,
            h.request, h.requestWritten⟩
          · exact List.rel_append h.attempted (.cons ⟨List.take_prefix _ _, rfl, rfl⟩ .nil)
          · intro w hw
            cases hw
          · rw [if_pos rfl, List.append_nil, List.flatten_append, List.flatten_singleton]
            change m.conn.conn.sent ++ (m.conn.request ++ b).take _ = _
            rw [hsent, h.request]

/-- A call keeps the writing side in order. -/
theorem Upstream.step {request : Bytes} {m : Process VlessConn} {attempts : List Bytes}
    {failed rest : List (Bytes × Written)} (h : Upstream request m attempts failed rest)
    (call : Call) :
    ∃ attempts failed rest, Upstream request (m.step vless call) attempts failed rest := by
  by_cases hc : m.crashed = true
  · rw [Process.step_crashed hc]
    exact ⟨attempts, failed, rest, h⟩
  · have alive : m.crashed = false := by simpa using hc
    cases call with
    | write b fate => exact h.write alive b fate
    | read size =>
        obtain ⟨h1, h2, h3⟩ := m.conn.read_writer size
        refine ⟨attempts, failed, rest, ?_⟩
        cases hr : vless.read m.conn size with
        | mk g conn =>
            have hconn : (m.conn.read size).2 = conn := congrArg Prod.snd hr
            rw [hconn] at h1 h2 h3
            cases g with
            | bytes b e =>
                rw [Process.step_read alive hr]
                exact ⟨h.written, h.attempted, h.first, h3.trans h.sent, h2.trans h.request,
                  h1.trans h.requestWritten⟩
            | panic =>
                rw [Process.step_panic alive hr]
                exact ⟨h.written, h.attempted, h.first, h3.trans h.sent, h2.trans h.request,
                  h1.trans h.requestWritten⟩

/-- The reading side of a process. -/
inductive Heard (incoming : Reader) (m : Process VlessConn) : Prop where
  | fresh (opened : m.conn.responseRead = false) (alive : m.crashed = false) (got : m.got = [])
      (left : m.conn.conn.incoming = incoming)
  | receiving (r : Reader) (response : readResponse incoming = (.ok (), r))
      (opened : m.conn.responseRead = true) (alive : m.crashed = false)
      (got : r.content = returned m.got ++ m.conn.conn.incoming.content)
      (drained : ∀ x ∈ m.got, x.2.isSome = true → m.conn.conn.incoming.content = [])
  | refused (e : Error) (r : Reader) (response : readResponse incoming = (.error (.error e), r))
      (got : ∃ rest, m.got = ([], some e) :: rest)
  | crashed (r : Reader) (response : readResponse incoming = (.error .panic, r))

/-- One read of the connection below, behind a header. -/
theorem Heard.receive {incoming r : Reader} {m : Process VlessConn}
    (response : readResponse incoming = (.ok (), r)) (alive : m.crashed = false) {conn : Stream}
    (got : r.content = returned m.got ++ conn.incoming.content)
    (drained : ∀ x ∈ m.got, x.2.isSome = true → conn.incoming.content = []) {size : Nat}
    (hr : vless.read m.conn size =
      ((conn.read size).1, { m.conn with conn := (conn.read size).2, responseRead := true })) :
    Heard incoming (m.step vless (.read size)) := by
  obtain ⟨b, e, s, hs, hc, he⟩ := conn.read_spec size
  rw [hs] at hr
  rw [Process.step_read alive hr]
  refine .receiving r response rfl alive ?_ fun x hx hsome => ?_
  · rw [returned_snoc, List.append_assoc, ← hc]
    exact got
  · rcases List.mem_append.mp hx with hx | hx
    · exact (List.append_eq_nil_iff.mp (hc.symm.trans (drained x hx hsome))).2
    · rw [List.mem_singleton.mp hx] at hsome
      exact he hsome

/-- A first read. -/
theorem Heard.begin {incoming : Reader} {m : Process VlessConn}
    (opened : m.conn.responseRead = false) (alive : m.crashed = false) (got : m.got = [])
    (left : m.conn.conn.incoming = incoming) (size : Nat) :
    Heard incoming (m.step vless (.read size)) := by
  have hread : vless.read m.conn size =
      match m.conn.conn.reads readResponse with
      | (.ok (), conn) =>
          ((conn.read size).1, { m.conn with conn := (conn.read size).2, responseRead := true })
      | (.error (.error e), conn) => (.bytes [] (some e), { m.conn with conn })
      | (.error .panic, conn) => (.panic, { m.conn with conn }) := if_pos (by simp [opened])
  have hreads : m.conn.conn.reads readResponse = ((readResponse incoming).1,
      { m.conn.conn with incoming := (readResponse incoming).2 }) := by
    subst incoming
    rfl
  cases hp : readResponse incoming with
  | mk result r =>
      rw [hreads, hp] at hread
      match result, hp, hread with
      | .ok (), hp, hread =>
          exact .receive hp alive (by rw [got]; rfl) (by simp [got]) hread
      | .error (.error e), hp, hread =>
          rw [Process.step_read alive hread]
          exact .refused e r hp ⟨[], by rw [got]; rfl⟩
      | .error .panic, hp, hread => exact .crashed r hp

/-- A call keeps the reading side in order. -/
theorem Heard.step {incoming : Reader} {m : Process VlessConn} (h : Heard incoming m)
    (call : Call) : Heard incoming (m.step vless call) := by
  by_cases hc : m.crashed = true
  · rwa [Process.step_crashed hc]
  · have alive : m.crashed = false := by simpa using hc
    cases call with
    | read size =>
        cases h with
        | fresh opened _ got left => exact .begin opened alive got left size
        | receiving r response opened _ got drained =>
            refine .receive response alive got drained ?_
            change m.conn.read size = _
            rw [VlessConn.read, opened]
            simp [← opened]
        | refused e r response got =>
            obtain ⟨rest, hg⟩ := got
            cases hr : vless.read m.conn size with
            | mk g conn =>
                cases g with
                | bytes b e' =>
                    rw [Process.step_read alive hr]
                    exact .refused e r response ⟨rest ++ [(b, e')], by rw [hg]; rfl⟩
                | panic =>
                    rw [Process.step_panic alive hr]
                    exact .refused e r response ⟨rest, hg⟩
        | crashed r response => exact .crashed r response
    | write b fate =>
        obtain ⟨h1, h2⟩ := m.conn.write_reader fate b
        rw [Process.step_write alive]
        cases h with
        | fresh opened alive got left => exact .fresh (h1.trans opened) alive got (h2.trans left)
        | receiving r response opened alive got drained =>
            exact .receiving r response (h1.trans opened) alive
              (got.trans (congrArg (returned m.got ++ ·.content) h2.symm))
              fun x hx hsome => (congrArg Reader.content h2).trans (drained x hx hsome)
        | refused e r response got => exact .refused e r response got
        | crashed r response => exact .crashed r response

/-! ## Runs -/

/-- The connection over a fresh stream. -/
def fresh (request : Bytes) (incoming : Reader) : Process VlessConn :=
  { conn := { conn := { incoming }, request } }

theorem upstream_run (request : Bytes) (incoming : Reader) (calls : List Call) :
    ∃ attempts failed rest,
      Upstream request ((fresh request incoming).run vless calls) attempts failed rest :=
  Process.run_keeps vless (P := fun m => ∃ attempts failed rest,
      Upstream request m attempts failed rest)
    (fun _ call ⟨_, _, _, h⟩ => h.step call) ⟨[], [], [], rfl, .nil, nofun, rfl, rfl, rfl⟩ calls

theorem heard_run (request : Bytes) (incoming : Reader) (calls : List Call) :
    Heard incoming ((fresh request incoming).run vless calls) :=
  Process.run_keeps vless (fun _ call h => h.step call) (.fresh rfl rfl rfl rfl) calls

theorem Heard.downstream {incoming : Reader} {m : Process VlessConn} (h : Heard incoming m) :
    Downstream incoming m := by
  cases h with
  | fresh opened alive got left =>
      refine ⟨fun r _ => ⟨alive, ?_, ?_⟩, fun e r _ x rest hx => ?_⟩
      · rw [got]
        exact List.nil_prefix
      · simp [got]
      · simp [got] at hx
  | receiving r response opened alive got drained =>
      refine ⟨fun r' hr' => ?_, fun e r' hr' => ?_⟩ <;> cases response.symm.trans hr'
      refine ⟨alive, ⟨_, got.symm⟩, fun hend => ?_⟩
      obtain ⟨x, hx, hsome⟩ := hend
      rw [got, drained x hx hsome, List.append_nil]
  | refused e r response got =>
      obtain ⟨rest, hg⟩ := got
      refine ⟨fun r' hr' => ?_, fun e r' hr' x rest' hx => ?_⟩ <;> cases response.symm.trans hr'
      cases hg.symm.trans hx
      rfl
  | crashed r response =>
      refine ⟨fun r' hr' => ?_, fun e r' hr' => ?_⟩ <;> cases response.symm.trans hr'

/-- In every order of calls: what failed writes left of the request, then the request once more
and whole, and behind it what the writes took; and all that comes in behind a response header. -/
theorem calls_requested (request : Bytes) (incoming : Reader) (calls : List Call) :
    (∃ attempts failed rest,
        Upstream request ((fresh request incoming).run vless calls) attempts failed rest) ∧
      Downstream incoming ((fresh request incoming).run vless calls) :=
  ⟨upstream_run request incoming calls, (heard_run request incoming calls).downstream⟩

end DshClashProxy.Core.Reality
