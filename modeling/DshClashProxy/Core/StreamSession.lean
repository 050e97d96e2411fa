import DshClashProxy.Core.Vless
import DshClashProxy.Core.VmessHeader
import DshClashProxy.Core.WebSocketLink

/-!
# VLESS and Trojan sessions

Both clients write one request in front of what they are given. A VLESS server puts a response
header in front of its answer, which the client takes off when its face is read; a Trojan server
does not. Over tcp or WebSocket, and however the calls and the carrier interleave, the server gets
the target and then what the client wrote, and the client what the server answers.
-/
namespace DshClashProxy.Core.StreamSession

open Js Js.Text Lib.ByteSource Lib.Carriers Transports EncodeAddr
open VmessHeader (Address Plain addressOf)
open ProxyServer (decimal)
open WebSocketLink (webSocket byteFrames roomy_webSocket)
open InboundHost (SpellsGroup)

/-! ## The requests -/

/-- What a server makes of a request. The secret is a uuid, or a hashed password in hex. -/
structure Request where
  secret : Bytes
  command : UInt8
  port : Nat
  address : Address

def crlf : Bytes := [0x0d, 0x0a]

/-- The request that `trojanConnect` writes first. -/
def trojanRequest (sha224 : Bytes → Sip004.Sized 28) (password : Option Text) (host : Text)
    (port : Number) : Bytes :=
  let passwordHash := Bytes.hex (sha224 (Bytes.utf8Encode (password.getD []))).val
  Bytes.ofAscii passwordHash ++ crlf ++ [0x01] ++ encodeAddr host port ++ crlf

section
variable {source : Source UInt8}

/-- Version, uuid, addons, command, port and address. -/
def readVless : source.Reads VmessHeader.Rejected Request := do
  let version ← readByte
  if version ≠ 0x00 then throw .layout
  let secret ← Source.next 16
  let addonsLen ← readByte
  let _ ← Source.next addonsLen.toNat
  let command ← readByte
  let port ← Source.next 2
  let address ← VmessHeader.readAddress
  return { secret, command, port := Bytes.natBE port, address }

/-- The address of a SOCKS request. -/
def readSocksAddress : source.Reads VmessHeader.Rejected Address := do
  let atyp ← readByte
  if atyp = 0x01 then
    let octets ← Source.next 4
    return .ip4 octets
  else if atyp = 0x03 then
    let length ← readByte
    let name ← Source.next length.toNat
    return .name (Bytes.utf8Decode name)
  else if atyp = 0x04 then
    let octets ← Source.next 16
    return .ip6 octets
  else throw .address

def readCrlf : source.Reads VmessHeader.Rejected Unit := do
  let ending ← Source.next 2
  if ending ≠ crlf then throw .layout
  return ()

/-- Hashed password, command, address and port, in two lines. -/
def readTrojan : source.Reads VmessHeader.Rejected Request := do
  let secret ← Source.next 56
  readCrlf
  let command ← readByte
  let address ← readSocksAddress
  let port ← Source.next 2
  readCrlf
  return { secret, command, port := Bytes.natBE port, address }

end

/-! ## The session -/

/-- Where the reader of the client stands: before the version, before the length of the addons,
before this many addons, or behind the header. -/
inductive Phase where
  | version
  | addonsLen
  | addons (n : Nat)
  | streaming
  | failed (message : Text)
  deriving DecidableEq

/-- What a client writes first and what a server expects; what the server writes first, and where
the client starts to read. -/
structure Dialect where
  request : Bytes
  accept : (Source.ofList UInt8).Reads VmessHeader.Rejected Request
  response : Bytes
  first : Phase

/-- Both ends of a session. The server has made this of the request, and has sent its header or
not. Then what each end has written and what the other has made of it. -/
structure Session (k : Carrier UInt8) where
  link : k.State
  phase : Phase
  asked : Option (Except VmessHeader.Rejected Request) := none
  greeted : Bool := false
  written : Bytes := []
  served : Bytes := []
  answered : Bytes := []
  got : Bytes := []

inductive Turn (k : Carrier UInt8) where
  /-- `write` of the face. -/
  | write (data : Bytes) (fits : k.Fits data)
  /-- The server reads the request, or this much of what follows it. -/
  | accept
  | serve (n : Nat)
  | greet
  | answer (data : Bytes) (fits : k.Fits data)
  /-- The next await in the generator `read` of the face; behind the header it gets some bytes. -/
  | read (n : Nat)
  | move (m : k.Move)

section
variable {k : Carrier UInt8}

/-- The session once the client has written its request. -/
def opened (k : Carrier UInt8) (d : Dialect) : Session k where
  link := k.push .up k.start d.request
  phase := d.first

def Session.accepted (s : Session k) : Bool :=
  match s.asked with
  | some (.ok _) => true
  | _ => false

/-- The front of what has arrived at the client is used up. -/
def Session.drop (s : Session k) (n : Nat) (phase : Phase) : Session k :=
  { s with link := k.take .down s.link n, phase }

/-- The awaits of `stripHeader`, and then of the loop behind it. -/
def Session.read (s : Session k) (n : Nat) : Session k :=
  match s.phase, k.ready .down s.link with
  | .version, version :: _ =>
      if version ≠ 0x00 then
        s.drop 1 (.failed ("vless: unexpected response version ".toList ++ decimal version.toNat))
      else s.drop 1 .addonsLen
  | .addonsLen, addonsLen :: _ =>
      if 0 < addonsLen.toNat then s.drop 1 (.addons addonsLen.toNat) else s.drop 1 .streaming
  | .addons count, arrived => if count ≤ arrived.length then s.drop count .streaming else s
  | .streaming, arrived =>
      { s with link := k.take .down s.link (arrived.take n).length, got := s.got ++ arrived.take n }
  | _, _ => s

def Session.accept (s : Session k) (d : Dialect) : Session k :=
  match s.asked, onList d.accept (k.ready .up s.link) with
  | none, some (result, rest) =>
      { s with link := k.take .up s.link ((k.ready .up s.link).length - rest.length),
               asked := some result }
  | _, _ => s

def Session.step (d : Dialect) (s : Session k) : Turn k → Session k
  | .write data _ => { s with link := k.push .up s.link data, written := s.written ++ data }
  | .accept => s.accept d
  | .serve n =>
      if s.accepted then
        { s with link := k.take .up s.link ((k.ready .up s.link).take n).length,
                 served := s.served ++ (k.ready .up s.link).take n }
      else s
  | .greet =>
      if s.accepted && !s.greeted then
        { s with link := k.push .down s.link d.response, greeted := true }
      else s
  | .answer data _ =>
      if s.greeted then
        { s with link := k.push .down s.link data, answered := s.answered ++ data }
      else s
  | .read n => s.read n
  | .move m => { s with link := k.move s.link m }

def Session.run (d : Dialect) (s : Session k) (turns : List (Turn k)) : Session k :=
  turns.foldl (Session.step d) s

end

/-! ## What each turn keeps -/

/-- The header that a client in this phase has still to read. -/
inductive Expects : Phase → Bytes → Prop where
  | version {addons : Bytes} (h : addons.length < 256) :
      Expects .version (0x00 :: UInt8.ofNat addons.length :: addons)
  | addonsLen {addons : Bytes} (h : addons.length < 256) :
      Expects .addonsLen (UInt8.ofNat addons.length :: addons)
  | addons {addons : Bytes} (h : addons ≠ []) : Expects (.addons addons.length) addons
  | streaming : Expects .streaming []

/-- The server reads the request as this target, and the client reads its response. -/
structure Dialect.Speaks (d : Dialect) (target : Request) : Prop where
  accepts : Source.Consumes d.accept d.request target
  extends' : Extends d.accept
  expects : Expects d.first d.response

section
variable {k : Carrier UInt8} {d : Dialect} {target : Request} {s : Session k}
  {content : Way → Bytes}

/-- What has been written and not read is on the carrier, behind what is left of the request. -/
inductive Up (d : Dialect) (target : Request) (s : Session k) (content : Way → Bytes) : Prop where
  | asking (asked : s.asked = none) (served : s.served = [])
      (same : content .up = d.request ++ s.written)
  | serving (asked : s.asked = some (.ok target)) (same : s.written = s.served ++ content .up)

/-- What has been answered and not read is on the carrier, behind what is left of the header. -/
inductive Down (d : Dialect) (s : Session k) (content : Way → Bytes) : Prop where
  | quiet (greeted : s.greeted = false) (phase : s.phase = d.first) (same : content .down = [])
      (got : s.got = []) (answered : s.answered = [])
  | flowing (header : Bytes) (greeted : s.greeted = true) (expects : Expects s.phase header)
      (fresh : header ≠ [] → s.got = []) (same : s.got ++ content .down = header ++ s.answered)

structure Flows (d : Dialect) (target : Request) (s : Session k) (content : Way → Bytes) :
    Prop where
  holds : k.Holds s.link content
  up : Up d target s content
  down : Down d s content

variable (target) in
theorem flows_opened (hfits : k.Fits d.request) :
    ∃ content, Flows d target (opened k d) content := by
  refine ⟨_, k.holds_push .up k.holds_start hfits, .asking rfl rfl ?_, .quiet rfl rfl ?_ rfl rfl⟩
  · rw [Function.update_self, List.nil_append]
    exact (List.append_nil _).symm
  · exact Function.update_of_ne (by decide) _ _

/-- Only one direction changes. -/
theorem Up.congr {s' : Session k} {content' : Way → Bytes} (h : Up d target s content)
    (hasked : s'.asked = s.asked) (hserved : s'.served = s.served)
    (hwritten : s'.written = s.written) (hcontent : content' .up = content .up) :
    Up d target s' content' := by
  cases h with
  | asking asked served same =>
      exact .asking (hasked.trans asked) (hserved.trans served) (by rw [hcontent, hwritten, same])
  | serving asked same =>
      exact .serving (hasked.trans asked) (by rw [hcontent, hwritten, hserved, same])

theorem Down.congr {s' : Session k} {content' : Way → Bytes} (h : Down d s content)
    (hgreeted : s'.greeted = s.greeted) (hphase : s'.phase = s.phase) (hgot : s'.got = s.got)
    (hanswered : s'.answered = s.answered) (hcontent : content' .down = content .down) :
    Down d s' content' := by
  cases h with
  | quiet greeted phase same got answered =>
      exact .quiet (hgreeted.trans greeted) (hphase.trans phase) (hcontent.trans same)
        (hgot.trans got) (hanswered.trans answered)
  | flowing header greeted expects fresh same =>
      exact .flowing header (hgreeted.trans greeted) (hphase ▸ expects)
        (fun hne => hgot.trans (fresh hne)) (by rw [hgot, hcontent, hanswered, same])

/-- The client takes the next part of a header that has arrived. -/
theorem Flows.dropped (h : Flows d target s content) (hg : s.greeted = true) (front header : Bytes)
    {phase : Phase} (hgot : s.got = []) (hsame : content .down = front ++ (header ++ s.answered))
    (hlen : front.length ≤ (k.ready .down s.link).length) (hexp : Expects phase header) :
    ∃ content, Flows d target (s.drop front.length phase) content := by
  have hcontent : Function.update content .down ((content .down).drop front.length) .down =
      header ++ s.answered := by
    rw [Function.update_self, hsame, List.drop_left]
  refine ⟨_, k.holds_take .down h.holds hlen, h.up.congr rfl rfl rfl ?_,
    .flowing header hg hexp (fun _ => hgot) ?_⟩
  · exact Function.update_of_ne (by decide) _ _
  · change s.got ++ _ = _
    rw [hgot, hcontent]
    rfl

/-- The first byte that has arrived is the first of the content. -/
theorem ready_head (h : Flows d target s content) {b : UInt8} {rest arrived more : Bytes}
    (hready : k.ready .down s.link = b :: rest) (hsame : content .down = arrived ++ more)
    {c : UInt8} {tail : Bytes} (ha : arrived = c :: tail) : b = c := by
  obtain ⟨behind, hb⟩ := k.ready_front .down h.holds
  rw [hready, hsame, ha] at hb
  injection hb

/-- A header is expected, and nothing has arrived before it was sent. -/
theorem Flows.expected (h : Flows d target s content) (hd : d.Speaks target) :
    ∃ header, Expects s.phase header ∧ (k.ready .down s.link = [] ∨ s.greeted = true ∧
      (header ≠ [] → s.got = []) ∧ s.got ++ content .down = header ++ s.answered) := by
  cases h.down with
  | quiet greeted phase same got answered =>
      have hfront := k.ready_front .down h.holds
      rw [same, List.prefix_nil] at hfront
      exact ⟨d.response, phase ▸ hd.expects, .inl hfront⟩
  | flowing header greeted expects fresh same =>
      exact ⟨header, expects, .inr ⟨greeted, fresh, same⟩⟩

theorem Flows.read (h : Flows d target s content) (hd : d.Speaks target) (n : Nat) :
    ∃ content, Flows d target (s.read n) content := by
  obtain ⟨header, hexp, hwhere⟩ := h.expected hd
  generalize hphase : s.phase = phase at hexp
  cases hexp with
  | @version addons hlt =>
      cases hready : k.ready .down s.link with
      | nil => exact ⟨content, by simpa only [Session.read, hphase, hready] using h⟩
      | cons b rest =>
          rcases hwhere with hnone | ⟨hg, hfresh, hsame⟩
          · rw [hready] at hnone
            cases hnone
          have hgot := hfresh (List.cons_ne_nil _ _)
          rw [hgot, List.nil_append] at hsame
          have hb : b = 0x00 := ready_head h hready hsame rfl
          simp only [Session.read, hphase, hready, hb, ne_eq, not_true_eq_false, if_false]
          exact h.dropped hg [0x00] _ hgot hsame (by rw [hready]; simp)
            (.addonsLen hlt)
  | @addonsLen addons hlt =>
      cases hready : k.ready .down s.link with
      | nil => exact ⟨content, by simpa only [Session.read, hphase, hready] using h⟩
      | cons b rest =>
          rcases hwhere with hnone | ⟨hg, hfresh, hsame⟩
          · rw [hready] at hnone
            cases hnone
          have hgot := hfresh (List.cons_ne_nil _ _)
          rw [hgot, List.nil_append] at hsame
          have hb : b = UInt8.ofNat addons.length := ready_head h hready hsame rfl
          have hn : b.toNat = addons.length := by
            rw [hb, UInt8.toNat_ofNat']
            exact Nat.mod_eq_of_lt hlt
          have hlen : [b].length ≤ (k.ready .down s.link).length := by
            rw [hready]
            simp
          rw [← hb] at hsame
          simp only [Session.read, hphase, hready, hn]
          by_cases hpos : 0 < addons.length
          · rw [if_pos hpos]
            exact h.dropped hg [b] _ hgot hsame hlen
              (.addons (List.length_pos_iff.mp hpos))
          · rw [if_neg hpos]
            have hnil : addons = [] := List.length_eq_zero_iff.mp (Nat.eq_zero_of_not_pos hpos)
            rw [hnil] at hsame
            exact h.dropped hg [b] _ hgot hsame hlen .streaming
  | addons hne =>
      simp only [Session.read, hphase]
      by_cases hle : header.length ≤ (k.ready .down s.link).length
      · rw [if_pos hle]
        rcases hwhere with hnone | ⟨hg, hfresh, hsame⟩
        · rw [hnone] at hle
          exact absurd (List.length_eq_zero_iff.mp (Nat.le_zero.mp hle)) hne
        have hgot := hfresh hne
        rw [hgot, List.nil_append] at hsame
        exact h.dropped hg header [] hgot hsame hle .streaming
      · rw [if_neg hle]
        exact ⟨content, h⟩
  | streaming =>
      simp only [Session.read, hphase]
      refine ⟨_, k.holds_take .down h.holds (List.length_take_le' n _), h.up.congr rfl rfl rfl ?_,
        ?_⟩
      · exact Function.update_of_ne (by decide) _ _
      · cases h.down with
        | quiet greeted phase same got answered =>
            have hnone : k.ready .down s.link = [] := by
              have hfront := k.ready_front .down h.holds
              rwa [same, List.prefix_nil] at hfront
            refine .quiet greeted (hphase ▸ phase) ?_ ?_ answered
            · rw [Function.update_self, same, List.drop_nil]
            · rw [got, hnone, List.take_nil]
              rfl
        | flowing header greeted expects fresh same =>
            obtain rfl : header = [] := by
              rw [hphase] at expects
              cases expects
              rfl
            refine .flowing [] greeted .streaming (fun hne => absurd rfl hne) ?_
            rw [Function.update_self, List.append_assoc, k.take_ready .down h.holds]
            exact same

theorem Flows.accept (h : Flows d target s content) (hd : d.Speaks target) :
    ∃ content, Flows d target (s.accept d) content := by
  unfold Session.accept
  split
  · next result rest hasked hread =>
      obtain ⟨more, hmore⟩ := k.ready_front .up h.holds
      obtain ⟨used, hused, hext⟩ := hd.extends' _ _ _ hread
      cases h.up with
      | serving asked same =>
          rw [hasked] at asked
          cases asked
      | asking asked served same =>
          -- With all of the content there, it reads as the target.
          have hall : onList d.accept (content .up) = some (.ok target, s.written) := by
            obtain ⟨rest', hr, hc⟩ := hd.accepts (content .up) s.written same
            obtain rfl : rest' = s.written := hc
            exact hr
          have hboth := hext more
          rw [hmore, hall] at hboth
          injection hboth with hboth
          injection hboth with hresult hwritten
          subst hresult
          have hn : (k.ready .up s.link).length - rest.length = used.length := by
            rw [hused, List.length_append, Nat.add_sub_cancel]
          have hle : used.length ≤ (k.ready .up s.link).length := by
            rw [hused, List.length_append]
            exact Nat.le_add_right _ _
          rw [hn]
          refine ⟨_, k.holds_take .up h.holds hle, .serving rfl ?_, h.down.congr rfl rfl rfl rfl ?_⟩
          · rw [Function.update_self, ← hmore, hused, List.append_assoc, List.drop_left]
            change s.written = s.served ++ (rest ++ more)
            rw [served, ← hwritten]
            rfl
          · exact Function.update_of_ne (by decide) _ _
  · exact ⟨content, h⟩

theorem Flows.step (h : Flows d target s content) (hd : d.Speaks target)
    (hfits : k.Fits d.response) (turn : Turn k) :
    ∃ content, Flows d target (s.step d turn) content := by
  cases turn with
  | write data fits =>
      refine ⟨_, k.holds_push .up h.holds fits, ?_, h.down.congr rfl rfl rfl rfl ?_⟩
      · cases h.up with
        | asking asked served same =>
            refine .asking asked served ?_
            rw [Function.update_self, same, List.append_assoc]
            rfl
        | serving asked same =>
            refine .serving asked ?_
            rw [Function.update_self, ← List.append_assoc]
            exact congrArg (· ++ data) same
      · exact Function.update_of_ne (by decide) _ _
  | accept => exact h.accept hd
  | serve n =>
      rw [Session.step]
      split
      · next hacc =>
          refine ⟨_, k.holds_take .up h.holds (List.length_take_le' n _), ?_,
            h.down.congr rfl rfl rfl rfl ?_⟩
          · cases h.up with
            | asking asked served same =>
                rw [Session.accepted, asked] at hacc
                cases hacc
            | serving asked same =>
                refine .serving asked ?_
                rw [Function.update_self, List.append_assoc, k.take_ready .up h.holds]
                exact same
          · exact Function.update_of_ne (by decide) _ _
      · exact ⟨content, h⟩
  | greet =>
      rw [Session.step]
      split
      · next hgo =>
          have hquiet : s.greeted = false := by simpa using (Bool.and_eq_true_iff.mp hgo).2
          cases h.down with
          | flowing header greeted expects fresh same =>
              rw [hquiet] at greeted
              cases greeted
          | quiet greeted phase same got answered =>
              refine ⟨_, k.holds_push .down h.holds hfits, h.up.congr rfl rfl rfl ?_,
                .flowing d.response rfl (phase ▸ hd.expects) (fun _ => got) ?_⟩
              · exact Function.update_of_ne (by decide) _ _
              · rw [Function.update_self, same]
                change s.got ++ _ = _ ++ s.answered
                rw [got, answered, List.append_nil]
                rfl
      · exact ⟨content, h⟩
  | answer data fits =>
      rw [Session.step]
      split
      · next hg =>
          cases h.down with
          | quiet greeted phase same got answered =>
              rw [hg] at greeted
              cases greeted
          | flowing header greeted expects fresh same =>
              refine ⟨_, k.holds_push .down h.holds fits, h.up.congr rfl rfl rfl ?_,
                .flowing header greeted expects fresh ?_⟩
              · exact Function.update_of_ne (by decide) _ _
              · rw [Function.update_self, ← List.append_assoc]
                change s.got ++ _ ++ data = header ++ (s.answered ++ data)
                rw [same, List.append_assoc]
      · exact ⟨content, h⟩
  | read n => exact h.read hd n
  | move m =>
      exact ⟨content, k.holds_move m h.holds, h.up.congr rfl rfl rfl rfl,
        h.down.congr rfl rfl rfl rfl rfl⟩

theorem Flows.run (h : Flows d target s content) (hd : d.Speaks target)
    (hfits : k.Fits d.response) (turns : List (Turn k)) :
    ∃ content, Flows d target (s.run d turns) content := by
  induction turns generalizing s content with
  | nil => exact ⟨content, h⟩
  | cons turn rest ih =>
      obtain ⟨content', h'⟩ := h.step hd hfits turn
      exact ih h'

/-! ## What is on its way arrives -/

theorem run_append (a b : List (Turn k)) : s.run d (a ++ b) = (s.run d a).run d b :=
  List.foldl_append

theorem run_moves (s : Session k) (ms : List k.Move) :
    s.run d (ms.map .move) = { s with link := ms.foldl k.move s.link } := by
  induction ms generalizing s with
  | nil => rfl
  | cons m rest ih => exact ih _

/-- The carrier moves until everything has arrived. -/
theorem Flows.arrives (h : Flows d target s content) :
    ∃ link, (∃ turns, s.run d turns = { s with link }) ∧
      Flows d target { s with link } content ∧ ∀ w, k.ready w link = content w := by
  obtain ⟨ms, hready⟩ := k.arrives h.holds
  refine ⟨ms.foldl k.move s.link, ⟨ms.map .move, run_moves s ms⟩,
    ⟨k.holds_moves h.holds ms, ?_, ?_⟩, hready⟩
  · exact h.up.congr rfl rfl rfl rfl
  · exact h.down.congr rfl rfl rfl rfl rfl

/-- The phases of the header that are still ahead. -/
def Phase.ahead : Phase → Nat
  | .version => 3
  | .addonsLen => 2
  | .addons _ => 1
  | _ => 0

theorem read_kept (s : Session k) (n : Nat) :
    (s.read n).written = s.written ∧ (s.read n).answered = s.answered ∧
      (s.read n).asked = s.asked ∧ (s.read n).served = s.served ∧
      (s.read n).greeted = s.greeted := by
  unfold Session.read
  split <;> (try split) <;> exact ⟨rfl, rfl, rfl, rfl, rfl⟩

/-- With all of the content there, a read behind the header gets it, and one before the end of the
header gets closer to that. -/
theorem Flows.read_arrived (h : Flows d target s content) (hg : s.greeted = true)
    (hready : k.ready .down s.link = content .down) :
    (s.read (content .down).length).got = s.answered ∨
      (s.read (content .down).length).phase.ahead < s.phase.ahead := by
  cases h.down with
  | quiet greeted phase same got answered =>
      rw [hg] at greeted
      cases greeted
  | flowing header greeted expects fresh same =>
      generalize hphase : s.phase = phase at expects
      have hcontent : header ≠ [] → content .down = header ++ s.answered := fun hne => by
        rw [← same, fresh hne]
        rfl
      cases expects with
      | version hlt =>
          rw [hcontent (List.cons_ne_nil _ _)] at hready ⊢
          right
          simp only [Session.read, hphase, hready, List.cons_append, ne_eq, not_true_eq_false,
            if_false]
          exact show 2 < 3 by decide
      | addonsLen hlt =>
          rw [hcontent (List.cons_ne_nil _ _)] at hready ⊢
          right
          simp only [Session.read, hphase, hready, List.cons_append]
          split
          · exact show 1 < 2 by decide
          · exact show 0 < 2 by decide
      | addons hne =>
          rw [hcontent hne] at hready ⊢
          right
          have hle : header.length ≤ (k.ready .down s.link).length := by
            rw [hready, List.length_append]
            exact Nat.le_add_right _ _
          simp only [Session.read, hphase, if_pos hle]
          exact show 0 < 1 by decide
      | streaming =>
          left
          simp only [Session.read, hphase, hready, List.take_length]
          exact same

/-- The client gets everything that the server has answered. -/
theorem Flows.reads (h : Flows d target s content) (hd : d.Speaks target)
    (hg : s.greeted = true) :
    ∃ turns, (s.run d turns).got = s.answered ∧ (s.run d turns).written = s.written ∧
      (s.run d turns).answered = s.answered ∧ (s.run d turns).asked = s.asked ∧
      (s.run d turns).served = s.served := by
  induction hn : s.phase.ahead using Nat.strongRecOn generalizing s content with
  | _ n ih =>
      obtain ⟨link, ⟨moves, hmoves⟩, harrived, hready⟩ := h.arrives
      obtain ⟨content', hread⟩ := harrived.read hd (content .down).length
      obtain ⟨hwritten, hanswered, hasked, hserved, hgreeted⟩ :=
        read_kept { s with link } (content .down).length
      have hstep : s.run d (moves ++ [.read (content .down).length]) =
          Session.read { s with link } (content .down).length := by
        rw [run_append, hmoves]
        rfl
      rcases harrived.read_arrived hg (hready .down) with hgot | hlt
      · refine ⟨moves ++ [.read (content .down).length], ?_⟩
        rw [hstep]
        exact ⟨hgot, hwritten, hanswered, hasked, hserved⟩
      · obtain ⟨turns, hgot, hw, ha, hk, hs⟩ := ih _ (hn ▸ hlt) hread (hgreeted.trans hg) rfl
        refine ⟨moves ++ [.read (content .down).length] ++ turns, ?_⟩
        rw [run_append, hstep]
        exact ⟨hgot.trans hanswered, hw.trans hwritten, ha.trans hanswered, hk.trans hasked,
          hs.trans hserved⟩

/-- The server reads the request once it is there. -/
theorem Flows.accepts (h : Flows d target s content) (hd : d.Speaks target) :
    ∃ turns, (s.run d turns).asked = some (.ok target) ∧
      (s.run d turns).written = s.written ∧ (s.run d turns).answered = s.answered ∧
      (s.run d turns).got = s.got ∧ (s.run d turns).greeted = s.greeted := by
  cases h.up with
  | serving asked same => exact ⟨[], asked, rfl, rfl, rfl, rfl⟩
  | asking asked served same =>
      obtain ⟨link, ⟨moves, hmoves⟩, -, hready⟩ := h.arrives
      have hread : onList d.accept (k.ready .up link) = some (.ok target, s.written) := by
        rw [hready]
        obtain ⟨rest, hr, hc⟩ := hd.accepts (content .up) s.written same
        obtain rfl : rest = s.written := hc
        exact hr
      refine ⟨moves ++ [.accept], ?_⟩
      rw [run_append, hmoves]
      change (Session.accept { s with link } d).asked = _ ∧ _
      simp only [Session.run, List.foldl_cons, List.foldl_nil, Session.step, Session.accept, asked,
        hread, and_self]

theorem Flows.serves (h : Flows d target s content) (ha : s.asked = some (.ok target)) :
    ∃ turns, (s.run d turns).served = s.written ∧ (s.run d turns).asked = s.asked ∧
      (s.run d turns).written = s.written ∧ (s.run d turns).answered = s.answered ∧
      (s.run d turns).got = s.got ∧ (s.run d turns).greeted = s.greeted := by
  cases h.up with
  | asking asked served same =>
      rw [ha] at asked
      cases asked
  | serving asked same =>
      obtain ⟨link, ⟨moves, hmoves⟩, -, hready⟩ := h.arrives
      refine ⟨moves ++ [.serve (content .up).length], ?_⟩
      have hacc : Session.accepted { s with link } = true := by
        rw [Session.accepted, ha]
      rw [run_append, hmoves]
      simp only [Session.run, List.foldl_cons, List.foldl_nil, Session.step, hacc, if_true, hready,
        List.take_length, and_self, and_true]
      exact same.symm

/-! ## Every run -/

/-- What both ends may rely on: the server reads the request as its target and then the front of
what the client writes, the client never fails and gets the front of what the server answers, and
all of it arrives. -/
structure Delivers (d : Dialect) (target : Request) (s : Session k) : Prop where
  asked : ∀ result, s.asked = some result → result = .ok target
  phase : ∀ message, s.phase ≠ .failed message
  up : s.served <+: s.written
  down : s.got <+: s.answered
  whole : ∃ turns, (s.run d turns).asked = some (.ok target) ∧
    (s.run d turns).written = s.written ∧ (s.run d turns).served = s.written ∧
    (s.run d turns).answered = s.answered ∧ (s.run d turns).got = s.answered

theorem Flows.delivers (h : Flows d target s content) (hd : d.Speaks target)
    (hfits : k.Fits d.response) : Delivers d target s := by
  refine ⟨fun result hr => ?_, fun message hp => ?_, ?_, ?_, ?_⟩
  · cases h.up with
    | asking asked served same =>
        rw [asked] at hr
        cases hr
    | serving asked same => exact Option.some.inj (hr.symm.trans asked)
  · obtain ⟨header, hexp, -⟩ := h.expected hd
    rw [hp] at hexp
    cases hexp
  · cases h.up with
    | asking asked served same =>
        rw [served]
        exact List.nil_prefix
    | serving asked same => exact ⟨content .up, same.symm⟩
  · cases h.down with
    | quiet greeted phase same got answered =>
        rw [got]
        exact List.nil_prefix
    | flowing header greeted expects fresh same =>
        by_cases hne : header = []
        · rw [hne] at same
          exact ⟨content .down, same⟩
        · rw [fresh hne]
          exact List.nil_prefix
  · obtain ⟨first, hasked, hw₁, ha₁, hg₁, hgr₁⟩ := h.accepts hd
    obtain ⟨content₁, h₁⟩ := h.run hd hfits first
    obtain ⟨second, hserved, hasked₂, hw₂, ha₂, hg₂, hgr₂⟩ := h₁.serves hasked
    obtain ⟨content₂, h₂⟩ := h₁.run hd hfits second
    have hwritten := hw₂.trans hw₁
    have hanswered := ha₂.trans ha₁
    cases hgreeted : s.greeted with
    | false =>
        have hquiet : s.got = s.answered := by
          cases h.down with
          | quiet greeted phase same got answered => exact got.trans answered.symm
          | flowing header greeted expects fresh same =>
              rw [hgreeted] at greeted
              cases greeted
        refine ⟨first ++ second, ?_⟩
        rw [run_append]
        exact ⟨hasked₂.trans hasked, hwritten, hserved.trans hw₁, hanswered,
          (hg₂.trans hg₁).trans hquiet⟩
    | true =>
        obtain ⟨third, hgot, hw₃, ha₃, hasked₃, hserved₃⟩ :=
          h₂.reads hd ((hgr₂.trans hgr₁).trans hgreeted)
        refine ⟨first ++ second ++ third, ?_⟩
        rw [run_append, run_append]
        exact ⟨hasked₃.trans (hasked₂.trans hasked), hw₃.trans hwritten,
          hserved₃.trans (hserved.trans hw₁), ha₃.trans hanswered, hgot.trans hanswered⟩

theorem run_delivers (hd : d.Speaks target) (hrequest : k.Fits d.request)
    (hresponse : k.Fits d.response) (turns : List (Turn k)) :
    Delivers d target ((opened k d).run d turns) := by
  obtain ⟨content, h⟩ := flows_opened target hrequest
  obtain ⟨content', h'⟩ := h.run hd hresponse turns
  exact h'.delivers hd hresponse

end

/-! ## VLESS -/

/-- The address type of a SOCKS request, and the address. -/
def socksEncode : Address → Bytes
  | .ip4 octets => 0x01 :: octets
  | .name text => 0x03 :: UInt8.ofNat (Bytes.utf8Encode text).length :: Bytes.utf8Encode text
  | .ip6 octets => 0x04 :: octets

/-- A client that writes this request, and a server that answers behind these addons. -/
def vless (request addons : Bytes) : Dialect where
  request
  accept := readVless
  response := 0x00 :: UInt8.ofNat addons.length :: addons
  first := .version

def trojan (request : Bytes) : Dialect where
  request
  accept := readTrojan
  response := []
  first := .streaming

theorem extends_readByte {ε : Type} : Extends (readByte : (Source.ofList UInt8).Reads ε UInt8) :=
  (extends_next 1).bind fun _ => extends_pure _

theorem extends_readAddress : Extends (VmessHeader.readAddress :
    (Source.ofList UInt8).Reads VmessHeader.Rejected Address) := by
  refine extends_readByte.bind fun atyp => ?_
  split
  · exact (extends_next 4).bind fun _ => extends_pure _
  split
  · exact extends_readByte.bind fun _ => (extends_next _).bind fun _ => extends_pure _
  split
  · exact (extends_next 16).bind fun _ => extends_pure _
  · exact extends_throw _

theorem extends_readSocksAddress :
    Extends (readSocksAddress : (Source.ofList UInt8).Reads VmessHeader.Rejected Address) := by
  refine extends_readByte.bind fun atyp => ?_
  split
  · exact (extends_next 4).bind fun _ => extends_pure _
  split
  · exact extends_readByte.bind fun _ => (extends_next _).bind fun _ => extends_pure _
  split
  · exact (extends_next 16).bind fun _ => extends_pure _
  · exact extends_throw _

theorem extends_readCrlf :
    Extends (readCrlf : (Source.ofList UInt8).Reads VmessHeader.Rejected Unit) := by
  refine (extends_next 2).bind fun ending => ?_
  split
  · exact extends_throw _
  · exact extends_pure _

theorem extends_readVless :
    Extends (readVless : (Source.ofList UInt8).Reads VmessHeader.Rejected Request) := by
  refine extends_readByte.bind fun version => ?_
  split
  · exact extends_throw _
  · exact (extends_next 16).bind fun _ => extends_readByte.bind fun _ =>
      (extends_next _).bind fun _ => extends_readByte.bind fun _ => (extends_next 2).bind fun _ =>
        extends_readAddress.bind fun _ => extends_pure _

theorem extends_readTrojan :
    Extends (readTrojan : (Source.ofList UInt8).Reads VmessHeader.Rejected Request) :=
  (extends_next 56).bind fun _ => extends_readCrlf.bind fun _ => extends_readByte.bind fun _ =>
    extends_readSocksAddress.bind fun _ => (extends_next 2).bind fun _ =>
      extends_readCrlf.bind fun _ => extends_pure _

section
variable {source : Source UInt8}

theorem consumes_vless {secret : Bytes} (hs : secret.length = 16) {port : Nat} (hp : port < 65536)
    {address : Address} (ha : address.Sized) :
    Source.Consumes (readVless : source.Reads VmessHeader.Rejected Request)
      (0x00 :: secret ++ 0x00 :: 0x01 :: (Bytes.uint16BE port ++ address.encode))
      ⟨secret, 0x01, port, address⟩ := by
  refine (consumes_byte 0x00).bind ?_
  simp only [ne_eq, not_true_eq_false, if_false]
  refine (Source.consumes_of_length hs).bind ((consumes_byte 0x00).bind ?_)
  refine (Source.consumes_of_length (show [].length = _ from rfl)).bind ?_
  refine (consumes_byte 0x01).bind ?_
  refine (Source.consumes_of_length (show (Bytes.uint16BE port).length = 2 from rfl)).bind ?_
  refine (VmessHeader.consumes_address ha).bind_nil ?_
  rw [Bytes.natBE_uint16BE hp]
  exact Source.consumes_pure _

theorem consumes_socksAddress {address : Address} (h : address.Sized) :
    Source.Consumes (readSocksAddress : source.Reads VmessHeader.Rejected Address)
      (socksEncode address) address := by
  cases address with
  | ip4 octets =>
      exact (consumes_byte 0x01).bind ((Source.consumes_of_length h).bind_nil
        (Source.consumes_pure _))
  | name text =>
      have hl : (Bytes.utf8Encode text).length =
          (UInt8.ofNat (Bytes.utf8Encode text).length).toNat :=
        (Client.toNat_lengthByte h).symm
      have hname : Source.Consumes
          (Source.next (UInt8.ofNat (Bytes.utf8Encode text).length).toNat >>= fun name =>
            pure (Address.name (Bytes.utf8Decode name)) :
              source.Reads VmessHeader.Rejected Address)
          (Bytes.utf8Encode text) (Address.name text) := by
        refine (Source.consumes_of_length hl).bind_nil ?_
        rw [Bytes.utf8Decode_utf8Encode]
        exact Source.consumes_pure _
      exact (consumes_byte 0x03).bind ((consumes_byte _).bind hname)
  | ip6 octets =>
      exact (consumes_byte 0x04).bind ((Source.consumes_of_length h).bind_nil
        (Source.consumes_pure _))

theorem consumes_crlf :
    Source.Consumes (readCrlf : source.Reads VmessHeader.Rejected Unit) crlf () :=
  (Source.consumes_of_length (show crlf.length = 2 from rfl)).bind_nil (Source.consumes_pure _)

theorem consumes_trojan {secret : Bytes} (hs : secret.length = 56) {port : Nat}
    (hp : port < 65536) {address : Address} (ha : address.Sized) :
    Source.Consumes (readTrojan : source.Reads VmessHeader.Rejected Request)
      (secret ++ (crlf ++ ([0x01] ++ (socksEncode address ++ (Bytes.uint16BE port ++ crlf)))))
      ⟨secret, 0x01, port, address⟩ := by
  refine (Source.consumes_of_length hs).bind (consumes_crlf.bind ((consumes_byte 0x01).bind ?_))
  refine (consumes_socksAddress ha).bind ?_
  refine (Source.consumes_of_length (show (Bytes.uint16BE port).length = 2 from rfl)).bind ?_
  refine consumes_crlf.bind_nil ?_
  rw [Bytes.natBE_uint16BE hp]
  exact Source.consumes_pure _

end

theorem length_hexBytes : ∀ s : Text, (Vless.hexBytes s).length = s.length / 2
  | [] => rfl
  | [_] => by
      rw [Vless.hexBytes]
      · simp
      · intro _ _ _ h
        cases h
  | hi :: lo :: rest => by
      rw [Vless.hexBytes, List.length_cons, length_hexBytes rest, List.length_cons,
        List.length_cons]
      omega

/-- The request of a plain node is its uuid, the port and the address. -/
theorem vlessConnect_plain (cases' : CaseMap) {node : Vless.Node} (h : node.Plain)
    {target : Host} {host : Text} (ht : Plain target host) {port : Nat} (hp : port < 65536) :
    Vless.vlessConnect cases' node host (.finite port) =
      .ok (0x00 :: Vless.hexBytes ((node.uuid.getD []).filter (· ≠ '-')) ++ 0x00 :: 0x01 ::
        (Bytes.uint16BE port ++ (addressOf target).encode)) := by
  have hflow : cases'.toLower (node.flow.getD []) = [] := by
    rw [h.flow]
    exact cases'.toLower_ascii [] (by decide)
  simp only [Vless.vlessConnect, hflow, h.realityOpts, Vless.uuidBytes_eq h.uuid,
    VmessHeader.vmessEncodeAddr_plain ht hp]
  rfl

theorem encodeAddr_plain {target : Host} {host : Text} (h : Plain target host) {port : Nat}
    (hp : port < 65536) :
    encodeAddr host (.finite port) =
      socksEncode (addressOf target) ++ Bytes.uint16BE port := by
  cases target with
  | ip4 octets => exact encodeAddr_ip4 h hp
  | ip6 octets h16 =>
      obtain ⟨ss, hs, rfl⟩ := h
      have hne : ss ≠ [] := by
        rintro rfl
        cases hs
      have hsplit := List.splitOn_intercalate ':' (colonless_groups hs) hne
      have hcolon : ':' ∈ [':'].intercalate ss :=
        colon_mem_of_address (.full (InboundHost.spells_of_groups hs))
          (by simp [InboundHost.groups])
      rw [encodeAddr_ip6 hcolon hp, hsplit, encodePieces_of (pieces_of_groups hs),
        flatMap_groups h16]
      rfl
  | name text ne_nil colonless named =>
      obtain ⟨rfl, -⟩ := h
      exact encodeAddr_name colonless named hp

theorem length_hex (b : Bytes) : (Bytes.hex b).length = 2 * b.length := by
  induction b with
  | nil => rfl
  | cons c rest ih =>
      rw [Bytes.hex, List.flatMap_cons, List.length_append, List.length_cons]
      change 2 + (Bytes.hex rest).length = 2 * (rest.length + 1)
      omega

theorem length_socksEncode_le {address : Address} (h : address.Sized) :
    (socksEncode address).length ≤ 257 := by
  cases address with
  | ip4 octets =>
      have h : octets.length = 4 := h
      rw [socksEncode, List.length_cons, h]
      decide
  | name text =>
      have h : (Bytes.utf8Encode text).length ≤ 255 := h
      rw [socksEncode, List.length_cons, List.length_cons]
      omega
  | ip6 octets =>
      have h : octets.length = 16 := h
      rw [socksEncode, List.length_cons, h]
      decide

/-- `::1` as the request spells it. -/
theorem plain_loopback : Plain loopback VmessHeader.loopbackArgs.host := by
  have hz : SpellsGroup 0 "0".toList := by decide
  have h1 : SpellsGroup 1 "1".toList := by decide
  exact ⟨_, .cons hz (.cons hz (.cons hz (.cons hz (.cons hz (.cons hz (.cons hz
    (.cons h1 .nil))))))), rfl⟩

/-- In every run of a VLESS session over tcp or WebSocket, with a server that answers behind any
addons, the server gets the uuid and the target, and both directions deliver. -/
theorem vless_delivers (k : Carrier UInt8) (hk : k.Roomy) (cases' : CaseMap) {node : Vless.Node}
    (h : node.Plain) {target : Host} {host : Text} (ht : Plain target host) {port : Nat}
    (hp : port < 65536) :
    ∃ request, Vless.vlessConnect cases' node host (.finite port) = .ok request ∧
      ∀ addons : Bytes, addons.length < 256 → ∀ turns : List (Turn k),
        Delivers (vless request addons)
          ⟨Vless.hexBytes ((node.uuid.getD []).filter (· ≠ '-')), 0x01, port, addressOf target⟩
          ((opened k (vless request addons)).run (vless request addons) turns) := by
  have hsized := VmessHeader.sized_of_plain ht
  have hsecret : (Vless.hexBytes ((node.uuid.getD []).filter (· ≠ '-'))).length = 16 := by
    rw [length_hexBytes, h.uuid.1]
  refine ⟨_, vlessConnect_plain cases' h ht hp, fun addons haddons turns => ?_⟩
  refine run_delivers ⟨consumes_vless hsecret hp hsized, extends_readVless, .version haddons⟩
    (hk _ ?_) (hk _ ?_) turns
  · have hle := VmessHeader.length_encode_le hsized
    simp only [vless, List.length_append, List.length_cons, hsecret, Bytes.uint16BE,
      List.length_nil]
    omega
  · simp only [vless, List.length_cons]
    omega

theorem vless_delivers_loopback :
    ∃ request, Vless.vlessConnect .ascii Vless.loopbackNode VmessHeader.loopbackArgs.host
        (.finite 443) = .ok request ∧
      ∀ addons : Bytes, addons.length < 256 →
        ∀ turns : List (Turn (webSocket (fun _ => Shadowsocks.zeros 4) byteFrames)),
          Delivers (vless request addons)
            ⟨Vless.hexBytes ((Vless.loopbackNode.uuid.getD []).filter (· ≠ '-')), 0x01, 443,
              addressOf loopback⟩
            ((opened (webSocket (fun _ => Shadowsocks.zeros 4) byteFrames)
              (vless request addons)).run (vless request addons) turns) :=
  vless_delivers _ (roomy_webSocket _ _) .ascii Vless.loopbackNode_plain plain_loopback
    (by decide)

/-- In every run of a Trojan session over tcp or WebSocket the server gets the hashed password and
the target, and both directions deliver. -/
theorem trojan_delivers (k : Carrier UInt8) (hk : k.Roomy) (sha224 : Bytes → Sip004.Sized 28)
    (password : Option Text) {target : Host} {host : Text} (ht : Plain target host) {port : Nat}
    (hp : port < 65536) (turns : List (Turn k)) :
    Delivers (trojan (trojanRequest sha224 password host (.finite port)))
      ⟨Bytes.ofAscii (Bytes.hex (sha224 (Bytes.utf8Encode (password.getD []))).val), 0x01, port,
        addressOf target⟩
      ((opened k (trojan (trojanRequest sha224 password host (.finite port)))).run
        (trojan (trojanRequest sha224 password host (.finite port))) turns) := by
  have hsized := VmessHeader.sized_of_plain ht
  have hsecret : (Bytes.ofAscii
      (Bytes.hex (sha224 (Bytes.utf8Encode (password.getD []))).val)).length = 56 := by
    rw [Bytes.ofAscii, List.length_map, length_hex, (sha224 _).property]
  have hrequest : trojanRequest sha224 password host (.finite port) =
      Bytes.ofAscii (Bytes.hex (sha224 (Bytes.utf8Encode (password.getD []))).val) ++
        (crlf ++ ([0x01] ++
          (socksEncode (addressOf target) ++ (Bytes.uint16BE port ++ crlf)))) := by
    simp only [trojanRequest, encodeAddr_plain ht hp, List.append_assoc]
  refine run_delivers ⟨?_, extends_readTrojan, .streaming⟩ (hk _ ?_) (hk _ ?_) turns
  · rw [trojan, hrequest]
    exact consumes_trojan hsecret hp hsized
  · have hle := length_socksEncode_le hsized
    rw [trojan, hrequest]
    simp only [List.length_append, hsecret, crlf, Bytes.uint16BE, List.length_cons,
      List.length_nil]
    omega
  · exact show 0 < 2 ^ 53 by decide

/-- A request to `::1` without a password, over tcp. -/
def loopbackTrojan : Dialect :=
  trojan (trojanRequest (fun _ => Shadowsocks.zeros 28) none VmessHeader.loopbackArgs.host
    (.finite 443))

/-- The client sends a byte before its request has arrived, and a byte is answered. -/
def loopbackTurns : List (Turn (stream UInt8)) :=
  [.move (.up, 40), .accept, .write [0x21] (roomy_stream _ (by decide)), .move (.up, 64), .accept,
    .greet, .serve 1, .answer [0x3f] (roomy_stream _ (by decide)), .move (.down, 1), .read 1]

theorem trojan_delivers_loopback :
    Delivers loopbackTrojan
      ⟨Bytes.ofAscii (Bytes.hex (Shadowsocks.zeros 28).val), 0x01, 443, addressOf loopback⟩
      ((opened (stream UInt8) loopbackTrojan).run loopbackTrojan loopbackTurns) :=
  trojan_delivers _ roomy_stream _ none plain_loopback (by decide) loopbackTurns

end DshClashProxy.Core.StreamSession
