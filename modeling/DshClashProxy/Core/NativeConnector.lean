import DshClashProxy.Core.Hysteria
import DshClashProxy.Core.Reality
import DshClashProxy.Core.VisionWrites

/-!
# The native connector

`main` dials the destination that its arguments name and copies standard input to the connection
and the connection to standard output, in two goroutines. However the two take turns, and whatever
the network takes and brings, a server that reads the request gets this destination and a front of
the input, and the output is a front of what stands behind a good response. The server of a
Reality node reads the request inside TLS and decodes what Vision sends behind it.
-/
namespace DshClashProxy.Core.NativeConnector

open Js Go
open Go.Pipes (Framed Served Answered Piped)
open Hysteria (HysteriaConn hysteria dialed readTCPRequest exactly_request)
open Reality (VlessConn vless newVlessConn readRequest addressOf Sixteen Short)
open Vless (NodeConfig addonsOf decodeString stringsReplace buildVlessRequest)

/-! ## Hysteria -/

/-- The connector with `hysteria2` after these turns. -/
def hysteriaMain (host port : Bytes) (stdin incoming : Reader) (turns : List Turn) :
    Pipes HysteriaConn :=
  (Pipes.start (dialed (joinHostPort host port) incoming) stdin).run hysteria turns

/-- What the connector writes to the stream is one request and what it was given. -/
theorem hysteria_framed {dest input : Bytes} {incoming : Reader} {m : Pipes HysteriaConn}
    (h : Piped hysteria (dialed dest incoming) input m) :
    Framed (Hysteria.request dest) m.process.written m.process.conn.stream.sent := by
  obtain ⟨calls, hcalls⟩ := h.calls
  have hup := (Hysteria.wrote_run dest incoming calls).upstream
  rw [← hcalls] at hup
  obtain ⟨read, last, hcopy, -, -⟩ := h.up
  refine ⟨hup.silent, ?_, fun hne hwhole => ?_⟩
  · cases hw : m.process.written with
    | nil =>
        rw [hup.silent hw]
        exact List.nil_prefix
    | cons first rest =>
        obtain ⟨p, w⟩ := first
        cases he : w.error with
        | none =>
            rw [hup.framed p w rest hw he, ← hw]
            exact (List.prefix_append_right_inj _).mpr hcopy.front
        | some e =>
            refine (hup.failed p w rest e hw he).1.trans ?_
            exact (List.prefix_append_right_inj _).mpr (List.prefix_append _ _)
  · cases hw : m.process.written with
    | nil => exact absurd hw hne
    | cons first rest =>
        obtain ⟨p, w⟩ := first
        have hfirst : w = .whole p := hwhole (p, w) (by rw [hw]; exact List.mem_cons_self)
        rw [hup.framed p w rest hw (by rw [hfirst]; rfl), accepted_of_whole hwhole, hw]

/-- The server gets the destination and a front of the input, all of it in the end; the output is
a front of the payload behind a response of status zero, and empty behind any other. -/
theorem hysteria_session {host port : Bytes} (hd : (joinHostPort host port).length < 2 ^ 30)
    (stdin incoming : Reader) (turns : List Turn) :
    Served readTCPRequest (joinHostPort host port) (hysteriaMain host port stdin incoming turns)
        stdin.content (hysteriaMain host port stdin incoming turns).process.conn.stream.sent ∧
      ∀ (f : HysteriaFrame.Response) payload, incoming.content = f.encode ++ payload →
        (f.status = 0 → Answered (hysteriaMain host port stdin incoming turns) payload) ∧
        (f.status ≠ 0 → (hysteriaMain host port stdin incoming turns).output = []) := by
  have hp : Piped hysteria (dialed (joinHostPort host port) incoming) stdin.content
      (hysteriaMain host port stdin incoming turns) := Pipes.piped_run rfl rfl stdin turns
  refine ⟨hp.served (exactly_request hd) (hysteria_framed hp), fun f payload hc => ?_⟩
  obtain ⟨calls, hcalls⟩ := hp.calls
  have hdown := (Hysteria.heard_run (joinHostPort host port) incoming calls).downstream
  rw [← hcalls] at hdown
  obtain ⟨r, hr, hb⟩ := (HysteriaFrame.exactly_response f).takes incoming payload hc
  constructor
  · intro hs
    rw [HysteriaFrame.Response.result, if_pos hs] at hr
    obtain ⟨-, hfront, hwhole⟩ := hdown.opened r hr
    rw [hb.content] at hfront hwhole
    exact hp.answered hfront hwhole
  · intro hs
    rw [HysteriaFrame.Response.result, if_neg hs] at hr
    obtain ⟨-, hgot⟩ := hdown.failed _ r hr
    exact hp.unanswered fun x rest hx => hgot x (by rw [hx]; exact List.mem_cons_self)

/-- A destination, input and a response, all of which come in pieces. -/
theorem hysteria_session_sample :
    Served readTCPRequest (joinHostPort [0x61] [0x38, 0x30])
        (hysteriaMain [0x61] [0x38, 0x30] { pieces := [[0x68], [], [0x69]] }
          { pieces := [[0x00, 0x00], [0x00, 0x6f], [0x6b]] }
          [.up none, .up none, .down none, .up none, .down none, .up none]) [0x68, 0x69]
        (hysteriaMain [0x61] [0x38, 0x30] { pieces := [[0x68], [], [0x69]] }
          { pieces := [[0x00, 0x00], [0x00, 0x6f], [0x6b]] }
          [.up none, .up none, .down none, .up none, .down none,
            .up none]).process.conn.stream.sent :=
  (hysteria_session (by decide) _ _ _).1

/-! ## Reality -/

/-- The connector with `reality` and without Vision after these turns. -/
def realityMain (parseIP : Bytes → Option Bytes) (node : NodeConfig) (host port : Bytes)
    (stdin incoming : Reader) (turns : List Turn) : Except Fault (Pipes VlessConn) :=
  (newVlessConn parseIP { incoming } node (joinHostPort host port)).map fun conn =>
    (Pipes.start { conn } stdin).run vless turns

/-- A node whose uuid has sixteen bytes, and a host that its arguments can name. -/
structure Dials (parseIP : Bytes → Option Bytes) (node : NodeConfig) (host uuid : Bytes) :
    Prop where
  sixteen : Sixteen parseIP
  plain : Plain host
  short : Short parseIP host
  decoded : decodeString (stringsReplace (Bytes.ofAscii "-".toList) [] node.uuid 0) = some uuid
  length : uuid.length = 16

/-- What a server reads of a request. -/
def target (parseIP : Bytes → Option Bytes) (node : NodeConfig) (host uuid : Bytes) (port : Nat) :
    Reality.Request :=
  ⟨uuid, addonsOf node.flow, 0x01, port, addressOf parseIP host⟩

/-- The connection is made with a request that is read as the target. -/
theorem newVlessConn_dials {parseIP : Bytes → Option Bytes} {node : NodeConfig}
    {host uuid : Bytes} (h : Dials parseIP node host uuid) {port : Nat} (hp : port < 65536)
    (conn : Stream) :
    ∃ request, newVlessConn parseIP conn node (joinHostPort host (decimalBytes port)) =
        .ok { conn, request } ∧
      Exactly readRequest request (.ok (target parseIP node host uuid port)) := by
  obtain ⟨hport, hcolon⟩ := plain_decimalBytes port
  obtain ⟨request, hr, hexact⟩ :=
    Reality.exactly_readRequest h.sixteen h.short h.decoded h.length hp
  refine ⟨request, ?_, hexact⟩
  rw [newVlessConn, splitHostPort_join h.plain hport hcolon]
  simp only [uint16_sscanf hp, hr]

/-- What the connector writes to the stream is one request and what it was given. -/
theorem reality_framed {request input : Bytes} {incoming : Reader} {m : Pipes VlessConn}
    (h : Piped vless (Reality.fresh request incoming) input m) :
    Framed request m.process.written m.process.conn.conn.sent := by
  obtain ⟨calls, hcalls⟩ := h.calls
  obtain ⟨attempts, failed, rest, hup⟩ := Reality.upstream_run request incoming calls
  rw [← hcalls] at hup
  obtain ⟨read, last, hcopy, -, -⟩ := h.up
  have hwritten := hup.written
  have hsent := hup.sent
  cases hup.attempted with
  | nil =>
      rw [List.nil_append] at hwritten
      rw [List.flatten_nil, List.nil_append, ← hwritten] at hsent
      refine ⟨fun hnil => by rw [hsent, if_pos hnil], ?_, fun hne hwhole => ?_⟩
      · rw [hsent]
        split
        · exact List.nil_prefix
        · exact (List.prefix_append_right_inj _).mpr hcopy.front
      · rw [hsent, if_neg hne, accepted_of_whole hwhole]
  | @cons sent w attempts failed hw hrest =>
      have hfailed : w.2 ≠ .whole w.1 := fun he => by
        have := hw.failed
        rw [he] at this
        cases this
      have hmem : w ∈ m.process.written := by
        rw [hwritten]
        exact List.mem_cons_self
      -- the loop makes no write behind one that failed
      have hlast : failed ++ rest = [] := by
        by_contra hne
        refine hfailed (hcopy.early w ?_)
        rw [hwritten, List.cons_append, List.dropLast_cons_of_ne_nil hne]
        exact List.mem_cons_self
      obtain ⟨rfl, rfl⟩ := List.append_eq_nil_iff.mp hlast
      cases hrest
      refine ⟨fun hnil => by simp [hnil] at hmem, ?_, fun _ hwhole => ?_⟩
      · have hgiven : given m.process.written = w.1 := by
          rw [hwritten]
          exact List.append_nil _
        rw [hsent, hgiven]
        simpa using hw.front
      · exact absurd (hwhole w hmem) hfailed

/-- A response header: version zero, and addons that are skipped. -/
theorem exactly_response {addons : Bytes} (h : addons.length < 256) :
    Exactly Reality.readResponse (0x00 :: UInt8.ofNat addons.length :: addons) (.ok ()) := by
  have hn : (UInt8.ofNat addons.length).toNat = addons.length := by
    rw [UInt8.toNat_ofNat', Nat.mod_eq_of_lt h]
  have hpos : 0 < UInt8.ofNat addons.length ↔ 0 < addons.length := by
    rw [UInt8.lt_iff_toNat_lt, hn]
    rfl
  refine (@exactly_readFull [0x00, UInt8.ofNat addons.length] 2 rfl).bind ?_
  rw [if_neg (by simp)]
  simp only [List.getD_cons_succ, List.getD_cons_zero]
  by_cases h0 : 0 < addons.length
  · rw [if_pos (hpos.mpr h0)]
    exact (exactly_readFull hn.symm).bind_nil (exactly_pure ())
  · rw [if_neg (mt hpos.mp h0), List.length_eq_zero_iff.mp (Nat.eq_zero_of_not_pos h0)]
    exact exactly_pure ()

theorem exactly_badVersion {version addonsLen : UInt8} (h : version ≠ 0x00) :
    Exactly Reality.readResponse [version, addonsLen]
      (.error (.error (Reality.badVersion version))) := by
  refine (@exactly_readFull [version, addonsLen] 2 rfl).bind_nil ?_
  rw [if_pos (by simpa using h)]
  exact exactly_throw _

/-- The server gets the node's uuid, the port, the host's address and a front of the input, all of
it in the end; the output is a front of the payload behind a response of version zero, and empty
behind any other. -/
theorem reality_session {parseIP : Bytes → Option Bytes} {node : NodeConfig} {host uuid : Bytes}
    (h : Dials parseIP node host uuid) {port : Nat} (hp : port < 65536) (stdin incoming : Reader)
    (turns : List Turn) :
    ∃ m, realityMain parseIP node host (decimalBytes port) stdin incoming turns = .ok m ∧
      Served readRequest (target parseIP node host uuid port) m stdin.content
        m.process.conn.conn.sent ∧
      (∀ addons payload : Bytes, addons.length < 256 →
        incoming.content = (0x00 :: UInt8.ofNat addons.length :: addons) ++ payload →
        Answered m payload) ∧
      ∀ (version addonsLen : UInt8) rest, version ≠ 0x00 →
        incoming.content = [version, addonsLen] ++ rest → m.output = [] := by
  obtain ⟨request, hnew, hexact⟩ := newVlessConn_dials h hp { incoming }
  have hpiped : Piped vless (Reality.fresh request incoming) stdin.content
      ((Pipes.start (Reality.fresh request incoming) stdin).run vless turns) :=
    Pipes.piped_run rfl rfl stdin turns
  refine ⟨(Pipes.start (Reality.fresh request incoming) stdin).run vless turns, ?_,
    hpiped.served hexact (reality_framed hpiped), ?_, ?_⟩
  · rw [realityMain, hnew]
    rfl
  all_goals
    obtain ⟨calls, hcalls⟩ := hpiped.calls
    have hdown := (Reality.heard_run request incoming calls).downstream
    rw [← hcalls] at hdown
  · intro addons payload hl hc
    obtain ⟨r, hr, hb⟩ := (exactly_response hl).takes incoming payload hc
    obtain ⟨-, hfront, hwhole⟩ := hdown.opened r hr
    rw [hb.content] at hfront hwhole
    exact hpiped.answered hfront hwhole
  · intro version addonsLen rest hv hc
    obtain ⟨r, hr, -⟩ := (exactly_badVersion hv).takes incoming rest hc
    exact hpiped.unanswered (hdown.refused _ r hr)

/-- A node with this flow. -/
def sampleNode (flow : Text) : NodeConfig :=
  ⟨Bytes.ofAscii "b831381d-6324-4d53-ad4f-8cda48b30811".toList, Bytes.ofAscii flow⟩

/-- Vision is on. -/
def visionFlow : Text := "xtls-rprx-vision".toList

def sampleUuid : Vision.UUID :=
  ⟨[0xb8, 0x31, 0x38, 0x1d, 0x63, 0x24, 0x4d, 0x53, 0xad, 0x4f, 0x8c, 0xda, 0x48, 0xb3, 0x08,
    0x11], rfl⟩

theorem sample_dials (flow : Text) :
    Dials (fun _ => none) (sampleNode flow) [0x61] sampleUuid.val where
  sixteen := nofun
  plain := ⟨by decide, by decide⟩
  short := fun _ => by decide
  decoded := by
    change decodeString (stringsReplace _ _ (sampleNode []).uuid 0) = _
    decide
  length := rfl

theorem reality_session_sample :
    ∃ m, realityMain (fun _ => none) (sampleNode []) [0x61] (decimalBytes 443)
        { pieces := [[0x68, 0x69]] } { pieces := [[0x00], [0x01, 0x07], [0x6f, 0x6b]] }
        [.up none, .down none, .up none, .down none] = .ok m ∧
      Served readRequest (target (fun _ => none) (sampleNode []) [0x61] sampleUuid.val 443) m
        [0x68, 0x69] m.process.conn.conn.sent ∧ Answered m [0x6f, 0x6b] := by
  obtain ⟨m, hm, hserved, hanswered, -⟩ := @reality_session (fun _ => none) (sampleNode []) [0x61]
    sampleUuid.val (sample_dials []) 443 (by decide) { pieces := [[0x68, 0x69]] }
    { pieces := [[0x00], [0x01, 0x07], [0x6f, 0x6b]] }
    [.up none, .down none, .up none, .down none]
  exact ⟨m, hm, hserved, hanswered [0x07] [0x6f, 0x6b] (by decide) rfl⟩

/-! ## Vision over Reality -/

/-- The writes to the VLESS connection among what Vision sends. -/
def innerCalls (sent : List (Vision.Wire × Bytes)) : List Call :=
  (sent.filter (·.1 = Vision.Wire.inner)).map fun b => .write b.2 none

/-- Writes that are all taken go out behind one request. -/
theorem fresh_run_writes (request : Bytes) (incoming : Reader) (bs : List Bytes) :
    ((Reality.fresh request incoming).run vless (bs.map (.write · none))).conn.conn.sent =
      if bs = [] then [] else request ++ bs.flatten := by
  have hrun : ∀ (bs : List Bytes) (m : Process VlessConn), m.crashed = false →
      m.conn.requestWritten = true →
      (m.run vless (bs.map (.write · none))).conn.conn.sent = m.conn.conn.sent ++ bs.flatten := by
    intro bs
    induction bs with
    | nil => exact fun m _ _ => (List.append_nil _).symm
    | cons b rest ih =>
        intro m alive hw
        have hwrite : vless.write m.conn none b = _ := Reality.VlessConn.write_later hw none b
        have hstep := Process.step_write alive b none (C := vless)
        rw [hwrite] at hstep
        change ((m.step vless (.write b none)).run vless _).conn.conn.sent = _
        rw [hstep]
        refine (ih _ ?_ ?_).trans ?_
        · exact alive
        · exact hw
        · change m.conn.conn.sent ++ b.take b.length ++ rest.flatten = _
          rw [List.take_length, List.flatten_cons, List.append_assoc]
  cases bs with
  | nil => rfl
  | cons b rest =>
      have hstep := Process.step_write (m := Reality.fresh request incoming) rfl b none (C := vless)
      change (((Reality.fresh request incoming).step vless (.write b none)).run vless
        _).conn.conn.sent = _
      rw [hstep]
      refine (hrun rest _ ?_ ?_).trans ?_
      · rfl
      · rfl
      rw [if_neg (List.cons_ne_nil _ _), List.flatten_cons, ← List.append_assoc]
      change (request ++ b).take (request ++ b).length ++ rest.flatten = _
      rw [List.take_length]

/-- A server of a Reality node that reads the request off the TLS stream, and decodes what stands
behind it there and what comes on the raw connection, gets the target and what was written. -/
theorem vision_served {parseIP : Bytes → Option Bytes} {node : NodeConfig} {host : Bytes}
    {uuid : Vision.UUID} (h : Dials parseIP node host uuid.val) {port : Nat} (hp : port < 65536)
    (input rawIn : Bytes) {calls : List VisionWrites.Call}
    (hcopied : ∀ call ∈ calls, VisionWrites.Copied call.p)
    (hne : calls.flatMap (·.p.bytes) ≠ []) (incoming : Reader) :
    ∃ conn ws, newVlessConn parseIP { incoming } node (joinHostPort host (decimalBytes port)) =
        .ok conn ∧
      VisionWrites.run List.length (Vision.newVisionConn uuid input rawIn) calls = some ws ∧
      ∀ r : Reader, r.content = (Process.run vless { conn }
          (innerCalls (ws.flatMap VisionWrites.Written.sent))).conn.conn.sent →
        ∃ r', readRequest r = (.ok (target parseIP node host uuid.val port), r') ∧
          VisionWrites.decode uuid r'.content
            (VisionWrites.on .raw (ws.flatMap VisionWrites.Written.sent)) =
              some (calls.flatMap (·.p.bytes)) := by
  obtain ⟨request, hnew, hexact⟩ := newVlessConn_dials h hp { incoming }
  obtain ⟨ws, hrun, -, hdecode⟩ := @VisionWrites.run_decoded uuid List.length
    (fun _ => rfl) _ _ (.fresh rfl rfl rfl rfl rfl : VisionWrites.Stage uuid
      (Vision.newVisionConn uuid input rawIn) ⟨[], [], []⟩) calls
    (fun call hcall => (hcopied call hcall).1) (VisionWrites.allFit_of_copied _ hcopied _)
  simp only [List.nil_append] at hdecode
  refine ⟨_, ws, hnew, hrun, fun r hr => ?_⟩
  have hcalls : innerCalls (ws.flatMap VisionWrites.Written.sent) =
      (((ws.flatMap VisionWrites.Written.sent).filter (·.1 = Vision.Wire.inner)).map
        Prod.snd).map (.write · none) := by
    rw [innerCalls, List.map_map]
    rfl
  have hinner : (((ws.flatMap VisionWrites.Written.sent).filter
      (·.1 = Vision.Wire.inner)).map Prod.snd).flatten =
        VisionWrites.on .inner (ws.flatMap VisionWrites.Written.sent) := List.flatMap_def.symm
  rw [hcalls] at hr
  have hsent := hr.trans (fresh_run_writes request incoming _)
  -- something was written, so something was sent inside TLS
  have hbegun : VisionWrites.on .inner (ws.flatMap VisionWrites.Written.sent) ≠ [] := by
    intro hnil
    rw [hnil, VisionWrites.decode, if_pos rfl] at hdecode
    split at hdecode
    · exact hne (Option.some.inj hdecode).symm
    · cases hdecode
  rw [if_neg (fun hnil => hbegun (by rw [← hinner, hnil]; rfl)), hinner] at hsent
  obtain ⟨r', hread, hb⟩ := hexact.takes r _ hsent
  exact ⟨r', hread, by rw [hb.content]; exact hdecode⟩

theorem vision_served_sample :
    ∃ conn ws, newVlessConn (fun _ => none) { incoming := { pieces := [] } } (sampleNode visionFlow)
        (joinHostPort [0x61] (decimalBytes 443)) = .ok conn ∧
      VisionWrites.run List.length (Vision.newVisionConn sampleUuid [] [])
        VisionWrites.conversation = some ws ∧
      ∀ r : Reader, r.content = (Process.run vless { conn }
          (innerCalls (ws.flatMap VisionWrites.Written.sent))).conn.conn.sent →
        ∃ r', readRequest r =
            (.ok (target (fun _ => none) (sampleNode visionFlow) [0x61] sampleUuid.val 443), r') ∧
          VisionWrites.decode sampleUuid r'.content
            (VisionWrites.on .raw (ws.flatMap VisionWrites.Written.sent)) =
              some [0x41, 0x17, 0x03, 0x03, 0x00, 0x02, 0x42, 0x43] := by
  refine @vision_served (fun _ => none) (sampleNode visionFlow) [0x61] sampleUuid
    (sample_dials visionFlow) 443 (by decide) [] [] VisionWrites.conversation
    (fun call hcall => ?_) (List.cons_ne_nil _ _) { pieces := [] }
  rcases List.mem_pair.mp hcall with rfl | rfl
  · exact VisionWrites.copied_copied (by decide)
  · exact VisionWrites.copied_copied (by decide)

end DshClashProxy.Core.NativeConnector
