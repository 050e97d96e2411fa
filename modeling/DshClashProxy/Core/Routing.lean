import DshClashProxy.Core.ProxyServer
import Mathlib.Algebra.Order.BigOperators.Group.List

/-!
# What the server lets through

The server over all of its connections, while nodes are selected. A target is dialled once, as the
rules say. Before that nothing passes in either direction, and each client reads one answer in the
order of its protocol.
-/
namespace DshClashProxy.Core.Routing

open Js Js.Text Rules ProxyServer

variable {Node : Type}

/-- What a server keeps while it runs. The node that `resolveNode` returns changes. -/
structure Site where
  decide : Text → Action
  parseUrl : Text → Option Url

def Site.server (site : Site) (current : Option Node) : ProxyServer Node where
  decide := site.decide
  resolveNode := current
  parseUrl := site.parseUrl

/-- A call of `connectThrough`, and what `resolveNode` returned then. -/
structure Dial (Node : Type) where
  node : Option Node
  host : Text
  port : Number
  current : Option Node

/-- A connection. The other fields are history: the dials made for it, what its face has yielded,
and the chunks that its client has sent. -/
structure Client (Node : Type) where
  conn : Conn Node := {}
  dials : List (Dial Node) := []
  offered : Bytes := []
  sent : List Bytes := []

/-- The dial of a connection that begins to wait for its target. -/
def dialled (current : Option Node) : Stage Node → Stage Node → List (Dial Node)
  | .connecting .., _ => []
  | _, .connecting node host port _ => [⟨node, host, port, current⟩]
  | _, _ => []

/-- What the face of a connection yields at an event. -/
def yielded : Stage Node → Event → Bytes
  | .relaying, .upstream chunk => chunk
  | .answering, .upstream chunk => chunk
  | _, _ => []

/-- What the client sends at an event. -/
def said : Event → List Bytes
  | .data chunk => [chunk]
  | _ => []

def Client.step (site : Site) (current : Option Node) (k : Client Node) (e : Event) :
    Client Node where
  conn := (site.server current).step k.conn e
  dials := k.dials ++ dialled current k.conn.stage ((site.server current).step k.conn e).stage
  offered := k.offered ++ yielded k.conn.stage e
  sent := k.sent ++ said e

/-- The server: whether it listens, the current node and every connection it has accepted. -/
structure Serving (Node : Type) where
  listening : Bool := true
  current : Option Node := none
  clients : List (Client Node) := []

inductive Move (Node : Type) where
  | accept
  | select (current : Option Node)
  | event (i : Nat) (e : Event)
  | stop

def Serving.step (site : Site) (s : Serving Node) : Move Node → Serving Node
  | .accept => if s.listening then { s with clients := s.clients ++ [{}] } else s
  | .select current => { s with current }
  | .event i e => { s with clients := s.clients.modify i (·.step site s.current e) }
  | .stop => { s with listening := false }

def Serving.run (site : Site) (s : Serving Node) (moves : List (Move Node)) : Serving Node :=
  moves.foldl (·.step site) s

/-- `counters`, which all connections add to. -/
def Serving.counters (s : Serving Node) : Nat × Nat :=
  ((s.clients.map (·.conn.up)).sum, (s.clients.map (·.conn.down)).sum)

/-! ## What the rules ask for -/

/-- A direct target is dialled without a node, any other through the node current then. -/
def Permitted (site : Site) (d : Dial Node) : Prop :=
  match site.decide d.host with
  | .direct => d.node = none
  | .proxy => d.node.isSome = true ∧ d.node = d.current
  | .reject => False

inductive Protocol where
  | socks5
  | connect
  | absolute
  deriving DecidableEq

def connectMethod : Text := "CONNECT".toList

/-- The protocol of a client: SOCKS5 by the first byte of its first chunk, and CONNECT by the method
in front of the first blank. -/
def protocol (sent : List Bytes) : Protocol :=
  if (sent.headD []).head? = some 0x05 then .socks5
  else if sent.flatten.takeWhile (· ≠ 0x20) = Bytes.ofAscii connectMethod then .connect
  else .absolute

/-- The protocol in which a target is asked for. -/
def answers : Reply → Protocol
  | .socks5 _ => .socks5
  | .connect => .connect
  | .absolute _ => .absolute

/-- What a client reads before its target is dialled. -/
def greeting : Reply → Bytes
  | .socks5 _ => [0x05, 0x00]
  | .connect => []
  | .absolute _ => []

/-- What a client reads when its target is reached. -/
def success : Reply → Bytes
  | .socks5 _ => socks5Reply 0x00
  | .connect => established
  | .absolute _ => []

/-- What a client may read, for its protocol, the target it named, the dials made for it and what
the face has yielded. -/
inductive Transcript (site : Site) :
    Protocol → Option (Text × Number) → List (Dial Node) → Bytes → Bytes → Prop where
  | nothing (p : Protocol) : Transcript site p none [] [] []
  | greeted : Transcript site .socks5 none [] [] [0x05, 0x00]
  | noMethod : Transcript site .socks5 none [] [] [0x05, 0xff]
  | malformed {p : Protocol} (http : p ≠ .socks5) : Transcript site p none [] [] badRequest
  | rejected (host : Text) (port : Number) (h : site.decide host = .reject) :
      Transcript site .socks5 (some (host, port)) [] [] ([0x05, 0x00] ++ socks5Reply 0x02)
  | failed (host : Text) (port : Number) (dials : List (Dial Node))
      (h : site.decide host ≠ .reject) :
      Transcript site .socks5 (some (host, port)) dials [] ([0x05, 0x00] ++ socks5Reply 0x05)
  | gateway {p : Protocol} (http : p ≠ .socks5) (target : Text × Number)
      (dials : List (Dial Node)) : Transcript site p (some target) dials [] badGateway
  | waiting (d : Dial Node) (reply : Reply) :
      Transcript site (answers reply) (some (d.host, d.port)) [d] [] (greeting reply)
  | opened (d : Dial Node) (reply : Reply) (answer : Bytes) :
      Transcript site (answers reply) (some (d.host, d.port)) [d] answer
        (greeting reply ++ success reply ++ answer)

/-- What a maintainer expects of every connection. A client whose socket was destroyed has read
only the front of its answer. -/
structure Sound (site : Site) (k : Client Node) : Prop where
  once : k.dials.length ≤ 1
  permitted : ∀ d ∈ k.dials, Permitted site d ∧ k.conn.extracted = some (d.host, d.port)
  undialled : k.dials = [] → k.conn.toFace = [] ∧ k.offered = []
  up : k.conn.up = k.conn.toFace.length
  down : k.conn.down ≤ k.offered.length ∧
    (k.conn.destroyed = false → k.conn.down = k.offered.length)
  answered : ∃ told, Transcript site (protocol k.sent) k.conn.extracted k.dials k.offered told ∧
    k.conn.toClient <+: told ∧ (k.conn.destroyed = false → k.conn.toClient = told)

/-! ## Protocols -/

/-- Whatever a client that has sent this goes on to send, its protocol is settled. -/
def Speaks (sent : List Bytes) (p : Protocol) : Prop := ∀ more, protocol (sent ++ more) = p

theorem Speaks.more {sent : List Bytes} {p : Protocol} (h : Speaks sent p) (chunks : List Bytes) :
    Speaks (sent ++ chunks) p := fun more => by
  rw [List.append_assoc]
  exact h (chunks ++ more)

/-- A client that has sent its first chunk, and not in SOCKS5. -/
inductive Http : List Bytes → Prop where
  | chunks {first : Bytes} (h : first.head? ≠ some 0x05) (rest : List Bytes) : Http (first :: rest)

theorem Http.more {sent : List Bytes} (h : Http sent) (chunks : List Bytes) :
    Http (sent ++ chunks) := by
  cases h with
  | chunks h rest => exact .chunks h (rest ++ chunks)

theorem Http.ne_socks5 {sent : List Bytes} (h : Http sent) : protocol sent ≠ .socks5 := by
  cases h with
  | chunks h rest =>
      rw [protocol, List.headD_cons, if_neg h]
      split
      · decide
      · decide

theorem speaks_socks5 {first : Bytes} (h : first.head? = some 0x05) : Speaks [first] .socks5 :=
  fun _ => if_pos h

/-- The first piece of a text stands in front of it. -/
theorem split_front (s separator : Text) : (split s separator).headD [] <+: s := by
  suffices hgo : ∀ piece, ∃ t pieces, splitGo separator s 0 piece = (piece.reverse ++ t) :: pieces ∧
      t <+: s by
    obtain ⟨t, pieces, hs, ht⟩ := hgo []
    rw [split, hs]
    exact ht
  induction s with
  | nil => exact fun piece => ⟨[], [], by simp [splitGo], List.prefix_rfl⟩
  | cons c rest ih =>
      intro piece
      rw [splitGo]
      split
      · exact ⟨[], _, by rw [List.append_nil], List.nil_prefix⟩
      · obtain ⟨t, pieces, hs, ht⟩ := ih (c :: piece)
        exact ⟨c :: t, pieces, by rw [hs]; simp, (List.prefix_cons_inj c).mpr ht⟩

/-- The method of a request line that has a target stands in front of the first blank. -/
theorem requestLine_method {lines : List Text} {method target : Text}
    (h : requestLine lines = (method, some target)) :
    ' ' ∉ method ∧ method ++ [' '] <+: lines.headD [] := by
  unfold requestLine at h
  cases hs : (lines.headD []).splitOn ' ' with
  | nil => exact absurd hs (List.splitOn_ne_nil _ _)
  | cons m rest =>
      rw [hs] at h
      cases rest with
      | nil => cases h
      | cons t rest =>
          obtain ⟨rfl, -⟩ := Prod.mk.inj h
          refine ⟨not_mem_of_mem_splitOn (by rw [hs]; exact List.mem_cons_self), ?_⟩
          have hjoin : [' '].intercalate ((lines.headD []).splitOn ' ') = lines.headD [] :=
            List.intercalate_splitOn _
          rw [hs, List.intercalate_cons_cons] at hjoin
          exact ⟨_, hjoin⟩

/-- A blank in the bytes is one in the text. -/
theorem takeWhile_latin1 (b : Bytes) :
    (Bytes.latin1 b).takeWhile (· ≠ ' ') = Bytes.latin1 (b.takeWhile (· ≠ 0x20)) := by
  have hblank : ∀ c : UInt8, (Char.ofNat c.toNat ≠ ' ') ↔ c ≠ 0x20 := by
    intro c
    refine not_congr ⟨fun h => ?_, fun h => by rw [h]; rfl⟩
    have hn := congrArg Char.toNat h
    rw [Bytes.toNat_latin1] at hn
    exact UInt8.toNat_inj.mp hn
  rw [Bytes.latin1, List.takeWhile_map, Bytes.latin1]
  congr 2
  funext c
  exact decide_eq_decide.mpr (hblank c)

/-- The method of a whole head settles which of the HTTP protocols it is. -/
theorem speaks_http {sent : List Bytes} (h : Http sent) {stop : Nat} {method target : Text}
    (hline : requestLine (split (Bytes.latin1 (sent.flatten.take stop)) crlf) =
      (method, some target)) :
    Speaks sent (if method = connectMethod then .connect else .absolute) := by
  obtain ⟨hblank, hfront⟩ := requestLine_method hline
  obtain ⟨rest, hrest⟩ := hfront.trans (split_front _ _)
  have hmethod : Bytes.latin1 ((sent.flatten.take stop).takeWhile (· ≠ 0x20)) = method := by
    rw [← takeWhile_latin1, ← hrest, List.append_assoc, List.takeWhile_append_of_pos]
    · simp
    · intro c hc
      simpa using fun he : c = ' ' => hblank (he ▸ hc)
  have hshort : ((sent.flatten.take stop).takeWhile (· ≠ 0x20)).length ≠
      (sent.flatten.take stop).length := by
    have hl := congrArg List.length hrest
    have hm := congrArg List.length hmethod
    simp only [Bytes.latin1, List.length_append, List.length_map, List.length_singleton] at hl hm
    omega
  intro more
  have hsame : (sent ++ more).flatten.takeWhile (· ≠ 0x20) =
      (sent.flatten.take stop).takeWhile (· ≠ 0x20) := by
    rw [List.flatten_append, ← List.take_append_drop stop sent.flatten, List.append_assoc,
      List.takeWhile_append, List.take_append_drop, if_neg hshort]
  have hconnect : (sent.flatten.take stop).takeWhile (· ≠ 0x20) = Bytes.ofAscii connectMethod ↔
      method = connectMethod := by
    have hname : Bytes.latin1 (Bytes.ofAscii connectMethod) = connectMethod := by decide
    constructor
    · intro hs
      rw [← hmethod, hs, hname]
    · intro hs
      exact Bytes.latin1_injective (hmethod.trans (hs.trans hname.symm))
  have hhttp := h.more more
  generalize sent ++ more = all at hsame hhttp
  cases hhttp with
  | chunks hne tail =>
      rw [protocol, List.headD_cons, if_neg hne, hsame]
      simp only [hconnect]

/-! ## Before the target is reached -/

/-- Nothing has passed, and the client was told this, if its socket was there. -/
structure Quiet (c : Conn Node) (told : Bytes) : Prop where
  toFace : c.toFace = []
  up : c.up = 0
  down : c.down = 0
  front : c.toClient <+: told
  whole : c.destroyed = false → c.toClient = told

/-- At most the socket of the client was lost meanwhile, and its face closed. -/
structure Kept (c c' : Conn Node) : Prop where
  stage : c'.stage = c.stage
  toFace : c'.toFace = c.toFace
  up : c'.up = c.up
  down : c'.down = c.down
  toClient : c'.toClient = c.toClient
  extracted : c'.extracted = c.extracted
  open' : c'.destroyed = false → c.destroyed = false

theorem Kept.refl (c : Conn Node) : Kept c c := ⟨rfl, rfl, rfl, rfl, rfl, rfl, id⟩

namespace Quiet
variable {c c' : Conn Node} {told : Bytes}

theorem kept (h : Quiet c told) (hk : Kept c c') : Quiet c' told where
  toFace := hk.toFace.trans h.toFace
  up := hk.up.trans h.up
  down := hk.down.trans h.down
  front := by rw [hk.toClient]; exact h.front
  whole hd := by rw [hk.toClient, h.whole (hk.open' hd)]

theorem setStage (h : Quiet c told) (stage : Stage Node) : Quiet (c.setStage stage) told :=
  ⟨h.toFace, h.up, h.down, h.front, h.whole⟩

theorem setBehind (h : Quiet c told) (behind : Bytes) : Quiet (c.setBehind behind) told :=
  ⟨h.toFace, h.up, h.down, h.front, h.whole⟩

theorem extract (h : Quiet c told) (host : Text) (port : Number) :
    Quiet (c.extract host port) told :=
  ⟨h.toFace, h.up, h.down, h.front, h.whole⟩

theorem destroy (h : Quiet c told) : Quiet c.destroy told :=
  ⟨h.toFace, h.up, h.down, h.front, nofun⟩

theorem write (h : Quiet c told) (b : Bytes) : Quiet (c.write b) (told ++ b) := by
  rw [Conn.write]
  split
  · next hd =>
      exact ⟨h.toFace, h.up, h.down, h.front.trans (List.prefix_append _ _),
        fun hn => absurd hd (by simp [hn])⟩
  · next hd =>
      have htold := h.whole (Bool.eq_false_iff.mpr hd)
      have hsent : c.toClient ++ b = told ++ b := by rw [htold]
      exact ⟨h.toFace, h.up, h.down, ⟨[], by rw [List.append_nil]; exact hsent⟩, fun _ => hsent⟩

theorem «end» (h : Quiet c told) (b : Bytes) : Quiet (c.end b) (told ++ b) :=
  let hw := h.write b
  ⟨hw.toFace, hw.up, hw.down, hw.front, hw.whole⟩

end Quiet

@[simp] theorem write_extracted (c : Conn Node) (b : Bytes) :
    (c.write b).extracted = c.extracted := by
  rw [Conn.write]
  split <;> rfl

@[simp] theorem end_extracted (c : Conn Node) (b : Bytes) : (c.end b).extracted = c.extracted :=
  write_extracted c b

/-- The client may read this, whatever it goes on to send. -/
def Tells (site : Site) (sent : List Bytes) (target : Option (Text × Number))
    (dials : List (Dial Node)) (offered told : Bytes) : Prop :=
  ∀ more, Transcript site (protocol (sent ++ more)) target dials offered told

/-- What a chunk makes of a connection that no target was named on; `sent` is all that its client
has sent with it. -/
inductive Heard (site : Site) (current : Option Node) (sent : List Bytes) (c : Conn Node) :
    Prop where
  | waits (buffer : Bytes) (stage : c.stage = .head buffer) (quiet : Quiet c [])
      (unnamed : c.extracted = none) (http : Http sent) (all : sent.flatten = buffer)
  | greets (stage : c.stage = .request) (quiet : Quiet c [0x05, 0x00])
      (unnamed : c.extracted = none) (speaks : Speaks sent .socks5)
  | ends (told : Bytes) (stage : c.stage = .done) (quiet : Quiet c told)
      (tells : Tells site sent c.extracted ([] : List (Dial Node)) [] told)
  | dials (node : Option Node) (host : Text) (port : Number) (reply : Reply)
      (stage : c.stage = .connecting node host port reply) (quiet : Quiet c (greeting reply))
      (named : c.extracted = some (host, port))
      (permitted : Permitted site ⟨node, host, port, current⟩)
      (speaks : Speaks sent (answers reply))

section
variable {site : Site} {current : Option Node} {c : Conn Node} {sent : List Bytes}

theorem Tells.of_speaks {p : Protocol} (h : Speaks sent p) {target : Option (Text × Number)}
    {dials : List (Dial Node)} {offered told : Bytes}
    (ht : Transcript site p target dials offered told) :
    Tells site sent target dials offered told := fun more => (h more).symm ▸ ht

theorem Tells.of_http (h : Http sent) {target : Option (Text × Number)}
    {dials : List (Dial Node)} {offered told : Bytes}
    (ht : ∀ {p}, p ≠ .socks5 → Transcript site p target dials offered told) :
    Tells site sent target dials offered told := fun more => ht (h.more more).ne_socks5

theorem Tells.more {target : Option (Text × Number)} {dials : List (Dial Node)}
    {offered told : Bytes} (h : Tells site sent target dials offered told) (chunks : List Bytes) :
    Tells site (sent ++ chunks) target dials offered told := fun more => by
  rw [List.append_assoc]
  exact h (chunks ++ more)

theorem permitted_connect {host : Text} {node : Option Node}
    (h : (site.server current).connect host = some node) (port : Number) :
    Permitted site ⟨node, host, port, current⟩ := by
  rw [Permitted]
  unfold ProxyServer.connect at h
  simp only [Site.server] at h
  cases hd : site.decide host with
  | direct =>
      rw [hd] at h
      exact (Option.some.inj h).symm
  | proxy =>
      rw [hd] at h
      obtain ⟨n, hn, rfl⟩ := Option.map_eq_some_iff.mp h
      exact ⟨rfl, hn.symm⟩
  | reject =>
      rw [hd] at h
      cases h

theorem not_rejected {d : Dial Node} (h : Permitted site d) : site.decide d.host ≠ .reject := by
  intro hd
  rw [Permitted, hd] at h
  exact h

theorem Heard.of_end {told b : Bytes} (h : Quiet c told)
    (ht : Tells site sent c.extracted ([] : List (Dial Node)) [] (told ++ b)) :
    Heard site current sent (c.end b) :=
  .ends (told ++ b) rfl (h.end b) (by rw [end_extracted]; exact ht)

theorem Heard.of_destroy {told : Bytes} (h : Quiet c told)
    (ht : Tells site sent c.extracted ([] : List (Dial Node)) [] told) :
    Heard site current sent c.destroy :=
  .ends told rfl h.destroy ht

theorem heard_handleSocks5 (h : Quiet c []) (hx : c.extracted = none)
    (hspeaks : Speaks sent .socks5) (chunk : Bytes) :
    Heard site current sent (handleSocks5 c chunk) := by
  rw [handleSocks5]
  split
  · exact .greets rfl ((h.write _).setStage _) ((write_extracted c _).trans hx) hspeaks
  · refine .of_end (h.write _) (.of_speaks hspeaks ?_)
    rw [write_extracted, hx]
    exact .noMethod

theorem heard_handleSocks5Request (h : Quiet c [0x05, 0x00]) (hx : c.extracted = none)
    (hspeaks : Speaks sent .socks5) (chunk : Bytes) :
    Heard site current sent ((site.server current).handleSocks5Request c chunk) := by
  unfold handleSocks5Request
  split
  · refine .of_destroy h (.of_speaks hspeaks ?_)
    rw [hx]
    exact .greeted
  · next host port rest hr =>
      have hq := (h.extract host (.finite port)).setBehind rest
      split
      · next hd => exact .of_end hq (.of_speaks hspeaks (.rejected host _ hd))
      · next hd =>
          split
          · exact .of_end hq (.of_speaks hspeaks (.failed host _ [] hd))
          · next node hn =>
              exact .dials node host _ (.socks5 rest) rfl (hq.setStage _) rfl
                (permitted_connect hn _) hspeaks

theorem heard_handleConnect (h : Quiet c []) (hx : c.extracted = none) (hhttp : Http sent)
    (hspeaks : Speaks sent .connect) (target : Text) :
    Heard site current sent ((site.server current).handleConnect c target) := by
  unfold handleConnect
  split
  · refine .of_end h (.of_http hhttp fun hp => ?_)
    rw [hx]
    exact .malformed hp
  · next host port ht =>
      have hq := h.extract host port
      split
      · exact .of_end hq (.of_http hhttp fun hp => .gateway hp (host, port) [])
      · next node hn =>
          exact .dials node host port .connect rfl (hq.setStage _) rfl (permitted_connect hn port)
            hspeaks

theorem heard_handleAbsolute (h : Quiet c []) (hx : c.extracted = none) (hhttp : Http sent)
    (hspeaks : Speaks sent .absolute) (method target : Text) (lines : List Text) :
    Heard site current sent ((site.server current).handleAbsolute c method target lines) := by
  unfold handleAbsolute
  split
  · refine .of_end h (.of_http hhttp fun hp => ?_)
    rw [hx]
    exact .malformed hp
  · next url hu =>
      have hq := h.extract url.hostname (urlPort url)
      split
      · exact .of_end hq (.of_http hhttp fun hp => .gateway hp (url.hostname, urlPort url) [])
      · next node hn =>
          exact .dials node url.hostname (urlPort url) (.absolute _) rfl (hq.setStage _) rfl
            (permitted_connect hn _) hspeaks

theorem heard_handleHead (h : Quiet c []) (hx : c.extracted = none) (hhttp : Http sent)
    {head : Text} (hline : ∀ {method target},
      requestLine (split head crlf) = (method, some target) →
        Speaks sent (if method = connectMethod then .connect else .absolute)) :
    Heard site current sent ((site.server current).handleHead c head) := by
  have hbad : Heard site current sent (c.end badRequest) :=
    .of_end h (.of_http hhttp fun hp => by rw [hx]; exact .malformed hp)
  unfold handleHead
  cases hl : requestLine (split head crlf) with
  | mk method target =>
      dsimp only
      by_cases hm : method = connectMethod
      · have hm' : method = "CONNECT".toList := hm
        rw [hl, if_pos hm']
        cases target with
        | some target =>
            have hspeaks := hline hl
            rw [if_pos hm] at hspeaks
            exact heard_handleConnect h hx hhttp hspeaks target
        | none => exact .of_destroy h (.of_http hhttp fun _ => by rw [hx]; exact .nothing _)
      · have hm' : ¬ method = "CONNECT".toList := hm
        rw [hl, if_neg hm']
        cases target with
        | some target =>
            have hspeaks := hline hl
            rw [if_neg hm] at hspeaks
            dsimp only
            split
            · exact heard_handleAbsolute h hx hhttp hspeaks _ _ _
            · exact hbad
        | none => exact hbad

theorem heard_readHttpHead (h : Quiet c []) (hx : c.extracted = none) (hs : c.stage ≠ .relaying)
    (hhttp : Http sent) :
    Heard site current sent ((site.server current).readHttpHead c sent.flatten) := by
  unfold readHttpHead
  split
  · exact .waits sent.flatten rfl (h.setStage _) hx hhttp rfl
  · next stop hstop =>
      have hun : c.unshift (sent.flatten.drop (stop + 4)) = c := by
        unfold Conn.unshift
        split
        · next hr => exact absurd hr hs
        · rfl
      simp only [hun]
      exact heard_handleHead (h.setBehind (sent.flatten.drop (stop + 4))) hx hhttp
        (speaks_http hhttp)

theorem heard_handle (h : Quiet c []) (hx : c.extracted = none) (hs : c.stage ≠ .relaying)
    (chunk : Bytes) : Heard site current [chunk] ((site.server current).handle c chunk) := by
  unfold handle
  split
  · next hsocks => exact heard_handleSocks5 h hx (speaks_socks5 hsocks) chunk
  · next hsocks =>
      have hheard := @heard_readHttpHead Node site current c [chunk] h hx hs (.chunks hsocks [])
      rwa [List.flatten_singleton] at hheard

end

/-! ## Once the target is reached -/

/-- The one dial of a connection. -/
def Dialled (site : Site) (k : Client Node) : Prop :=
  ∃ d, k.dials = [d] ∧ Permitted site d ∧ k.conn.extracted = some (d.host, d.port)

/-- The face takes what the client sends, and the client what the face yields, behind what it was
told before. -/
structure Passing (c : Conn Node) (told offered : Bytes) : Prop where
  up : c.up = c.toFace.length
  down : c.down ≤ offered.length
  downWhole : c.destroyed = false → c.down = offered.length
  front : c.toClient <+: told ++ offered
  whole : c.destroyed = false → c.toClient = told ++ offered

namespace Passing
variable {c : Conn Node} {told offered : Bytes}

theorem of_quiet (h : Quiet c told) : Passing c told [] where
  up := by rw [h.up, h.toFace, List.length_nil]
  down := h.down.le
  downWhole _ := h.down
  front := by rw [List.append_nil]; exact h.front
  whole hd := by rw [List.append_nil]; exact h.whole hd

theorem setStage (h : Passing c told offered) (stage : Stage Node) :
    Passing (c.setStage stage) told offered := ⟨h.up, h.down, h.downWhole, h.front, h.whole⟩

theorem pump (h : Passing c told offered) (chunk : Bytes) :
    Passing (c.pump chunk) told (offered ++ chunk) := by
  have hle : offered.length ≤ (offered ++ chunk).length := by
    rw [List.length_append]
    omega
  rw [Conn.pump]
  split
  · next hd =>
      have hn : c.destroyed ≠ false := by simp [hd]
      exact ⟨h.up, h.down.trans hle, fun he => absurd he hn,
        h.front.trans (by rw [← List.append_assoc]; exact List.prefix_append _ _),
        fun he => absurd he hn⟩
  · next hd =>
      have he := Bool.eq_false_iff.mpr hd
      have hdown : c.down + chunk.length = (offered ++ chunk).length := by
        rw [h.downWhole he, List.length_append]
      have hsent : c.toClient ++ chunk = told ++ (offered ++ chunk) := by
        rw [h.whole he, List.append_assoc]
      exact ⟨h.up, hdown.le, fun _ => hdown, ⟨[], by rw [List.append_nil]; exact hsent⟩,
        fun _ => hsent⟩

theorem relayed (h : Passing c told offered) (chunk : Bytes) :
    Passing (c.relayed chunk) told offered where
  up := by
    change c.up + chunk.length = (c.toFace ++ chunk).length
    rw [h.up, List.length_append]
  down := h.down
  downWhole := h.downWhole
  front := h.front
  whole := h.whole

theorem kept (h : Passing c told offered) {c' : Conn Node} (hk : Kept c c') :
    Passing c' told offered where
  up := by rw [hk.up, hk.toFace, h.up]
  down := hk.down.le.trans h.down
  downWhole hd := hk.down.trans (h.downWhole (hk.open' hd))
  front := by rw [hk.toClient]; exact h.front
  whole hd := by rw [hk.toClient, h.whole (hk.open' hd)]

end Passing

/-! ## Every event -/

/-- Where a connection stands at each stage. -/
def Stands (site : Site) (k : Client Node) : Prop :=
  match k.conn.stage with
  | .first => Quiet k.conn [] ∧ k.conn.extracted = none ∧ k.dials = [] ∧ k.offered = [] ∧
      k.sent = []
  | .head buffer => Quiet k.conn [] ∧ k.conn.extracted = none ∧ k.dials = [] ∧ k.offered = [] ∧
      Http k.sent ∧ k.sent.flatten = buffer
  | .request => Quiet k.conn [0x05, 0x00] ∧ k.conn.extracted = none ∧ k.dials = [] ∧
      k.offered = [] ∧ Speaks k.sent .socks5
  | .connecting _ _ _ reply => Quiet k.conn (greeting reply) ∧ Dialled site k ∧ k.offered = [] ∧
      Speaks k.sent (answers reply)
  | .relaying => ∃ reply, Passing k.conn (greeting reply ++ success reply) k.offered ∧
      Dialled site k ∧ Speaks k.sent (answers reply)
  | .answering => ∃ reply, Passing k.conn (greeting reply ++ success reply) k.offered ∧
      Dialled site k ∧ Speaks k.sent (answers reply)
  | .done => ∃ told, Quiet k.conn told ∧ (k.dials = [] ∨ Dialled site k) ∧ k.offered = [] ∧
      Tells site k.sent k.conn.extracted k.dials [] told

theorem Sound.of_stands {site : Site} {k : Client Node} (h : Stands site k) : Sound site k := by
  have hdialled : Dialled site k → k.dials.length ≤ 1 ∧
      ∀ d ∈ k.dials, Permitted site d ∧ k.conn.extracted = some (d.host, d.port) := by
    rintro ⟨d, hd, hp, hx⟩
    rw [hd]
    refine ⟨le_rfl, fun d' hd' => ?_⟩
    rw [List.mem_singleton] at hd'
    rw [hd']
    exact ⟨hp, hx⟩
  have hnone : k.dials = [] → k.dials.length ≤ 1 ∧
      ∀ d ∈ k.dials, Permitted site d ∧ k.conn.extracted = some (d.host, d.port) := by
    intro hd
    rw [hd]
    exact ⟨Nat.zero_le 1, nofun⟩
  have hquiet : ∀ {told}, Quiet k.conn told → k.offered = [] →
      Transcript site (protocol k.sent) k.conn.extracted k.dials [] told →
      (k.dials.length ≤ 1 ∧
        ∀ d ∈ k.dials, Permitted site d ∧ k.conn.extracted = some (d.host, d.port)) →
      Sound site k := by
    intro told hq ho ht hd
    refine ⟨hd.1, hd.2, fun _ => ⟨hq.toFace, ho⟩, ?_, ?_, told, ?_, hq.front, hq.whole⟩
    · rw [hq.up, hq.toFace, List.length_nil]
    · rw [hq.down]
      exact ⟨Nat.zero_le _, fun _ => by rw [ho, List.length_nil]⟩
    · rw [ho]
      exact ht
  have hnow : ∀ {p}, Speaks k.sent p → protocol k.sent = p := by
    intro p h
    have hnone := h []
    rwa [List.append_nil] at hnone
  have hpassing : (∃ reply, Passing k.conn (greeting reply ++ success reply) k.offered ∧
      Dialled site k ∧ Speaks k.sent (answers reply)) → Sound site k := by
    rintro ⟨reply, hp, hd, hspeaks⟩
    obtain ⟨d, hdials, -, hx⟩ := id hd
    refine ⟨(hdialled hd).1, (hdialled hd).2, fun hn => ?_, hp.up, ⟨hp.down, hp.downWhole⟩, _, ?_,
      hp.front, hp.whole⟩
    · rw [hdials] at hn
      cases hn
    · rw [hdials, hx, hnow hspeaks]
      exact .opened d reply k.offered
  unfold Stands at h
  split at h
  · obtain ⟨hq, hx, hd, ho, -⟩ := h
    exact hquiet hq ho (by rw [hx, hd]; exact .nothing _) (hnone hd)
  · obtain ⟨hq, hx, hd, ho, -⟩ := h
    exact hquiet hq ho (by rw [hx, hd]; exact .nothing _) (hnone hd)
  · obtain ⟨hq, hx, hd, ho, hspeaks⟩ := h
    exact hquiet hq ho (by rw [hx, hd, hnow hspeaks]; exact .greeted) (hnone hd)
  · next reply hs =>
      obtain ⟨hq, hd, ho, hspeaks⟩ := h
      obtain ⟨d, hdials, -, hx⟩ := id hd
      exact hquiet hq ho (by rw [hx, hdials, hnow hspeaks]; exact .waiting d reply) (hdialled hd)
  · exact hpassing h
  · exact hpassing h
  · obtain ⟨told, hq, hd, ho, ht⟩ := h
    have hnone' := ht []
    rw [List.append_nil] at hnone'
    exact hquiet hq ho hnone' (hd.elim hnone hdialled)

theorem dialled_nil {current : Option Node} {s s' : Stage Node}
    (h : ∀ node host port reply, s' ≠ .connecting node host port reply) :
    dialled current s s' = [] := by
  cases s' with
  | connecting node host port reply => exact absurd rfl (h node host port reply)
  | _ => cases s <;> rfl

theorem dialled_connecting {current : Option Node} {s : Stage Node}
    (h : ∀ node host port reply, s ≠ .connecting node host port reply) {node : Option Node}
    {host : Text} {port : Number} {reply : Reply} :
    dialled current s (.connecting node host port reply) = [⟨node, host, port, current⟩] := by
  cases s with
  | connecting node host port reply => exact absurd rfl (h node host port reply)
  | _ => rfl

theorem dialled_same (current : Option Node) (s : Stage Node) : dialled current s s = [] := by
  cases s <;> rfl

section
variable {site : Site} {current : Option Node} {k : Client Node}

/-- A client after an event that dials nothing and yields nothing. -/
theorem step_quietly {e : Event} {c : Conn Node} (hc : (site.server current).step k.conn e = c)
    (hd : dialled current k.conn.stage c.stage = []) (hy : yielded k.conn.stage e = []) :
    k.step site current e = { k with conn := c, sent := k.sent ++ said e } := by
  rw [Client.step, hc, hd, hy, List.append_nil, List.append_nil]

/-- The connection after a chunk on which it may have named its target. -/
theorem stands_heard {c : Conn Node} {sent : List Bytes}
    (hs : ∀ node host port reply, k.conn.stage ≠ .connecting node host port reply)
    (hdials : k.dials = []) (ho : k.offered = []) (h : Heard site current sent c) :
    Stands site ⟨c, k.dials ++ dialled current k.conn.stage c.stage, k.offered, sent⟩ := by
  rw [hdials, ho, List.nil_append]
  cases h with
  | waits buffer stage quiet unnamed http all =>
      rw [dialled_nil (by simp [stage])]
      simp only [Stands, stage]
      exact ⟨quiet, unnamed, trivial, trivial, http, all⟩
  | greets stage quiet unnamed speaks =>
      rw [dialled_nil (by simp [stage])]
      simp only [Stands, stage]
      exact ⟨quiet, unnamed, trivial, trivial, speaks⟩
  | ends told stage quiet tells =>
      rw [dialled_nil (by simp [stage])]
      simp only [Stands, stage]
      exact ⟨told, quiet, .inl trivial, trivial, tells⟩
  | dials node host port reply stage quiet named permitted speaks =>
      rw [stage, dialled_connecting hs]
      simp only [Stands, stage]
      exact ⟨quiet, ⟨_, rfl, permitted, named⟩, trivial, speaks⟩

/-- The target has been asked for, or there will be none. -/
def Settled : Stage Node → Prop
  | .first => False
  | .head _ => False
  | _ => True

theorem Stands.kept (h : Stands site k) {c : Conn Node} (hk : Kept k.conn c)
    {chunks : List Bytes} (hchunks : chunks = [] ∨ Settled k.conn.stage) :
    Stands site { k with conn := c, sent := k.sent ++ chunks } := by
  have hdialled : Dialled site k →
      Dialled site { k with conn := c, sent := k.sent ++ chunks } := by
    rintro ⟨d, hd, hp, hx⟩
    exact ⟨d, hd, hp, hk.extracted.trans hx⟩
  unfold Stands
  simp only [hk.stage]
  unfold Stands at h
  split at h
  · next hs =>
      obtain rfl := hchunks.resolve_right (by rw [hs]; exact id)
      rw [List.append_nil]
      exact ⟨h.1.kept hk, hk.extracted.trans h.2.1, h.2.2⟩
  · next hs =>
      obtain rfl := hchunks.resolve_right (by rw [hs]; exact id)
      rw [List.append_nil]
      exact ⟨h.1.kept hk, hk.extracted.trans h.2.1, h.2.2⟩
  · obtain ⟨hq, hx, hd, ho, hspeaks⟩ := h
    exact ⟨hq.kept hk, hk.extracted.trans hx, hd, ho, hspeaks.more _⟩
  · obtain ⟨hq, hd, ho, hspeaks⟩ := h
    exact ⟨hq.kept hk, hdialled hd, ho, hspeaks.more _⟩
  · obtain ⟨reply, hp, hd, hspeaks⟩ := h
    exact ⟨reply, hp.kept hk, hdialled hd, hspeaks.more _⟩
  · obtain ⟨reply, hp, hd, hspeaks⟩ := h
    exact ⟨reply, hp.kept hk, hdialled hd, hspeaks.more _⟩
  · obtain ⟨told, hq, hd, ho, ht⟩ := h
    refine ⟨told, hq.kept hk, hd.imp_right hdialled, ho, ?_⟩
    rw [hk.extracted]
    exact ht.more _

/-- An event at which at most the client socket is lost. -/
theorem stands_kept (h : Stands site k) {e : Event}
    (hk : Kept k.conn ((site.server current).step k.conn e)) (hy : yielded k.conn.stage e = [])
    (he : said e = [] ∨ Settled k.conn.stage) : Stands site (k.step site current e) := by
  have hd : dialled current k.conn.stage ((site.server current).step k.conn e).stage = [] := by
    rw [hk.stage]
    exact dialled_same current _
  rw [step_quietly rfl hd hy]
  exact h.kept hk he

theorem kept_setBehind (c : Conn Node) (behind : Bytes) : Kept c (c.setBehind behind) :=
  ⟨rfl, rfl, rfl, rfl, rfl, rfl, id⟩

theorem kept_destroyed (c : Conn Node) : Kept c { c with destroyed := true } :=
  ⟨rfl, rfl, rfl, rfl, rfl, rfl, nofun⟩

theorem stands_data (h : Stands site k) (chunk : Bytes) :
    Stands site (k.step site current (.data chunk)) := by
  have hheard : (∀ node host port reply, k.conn.stage ≠ .connecting node host port reply) →
      k.dials = [] → k.offered = [] →
      Heard site current (k.sent ++ [chunk]) ((site.server current).step k.conn (.data chunk)) →
      Stands site (k.step site current (.data chunk)) := by
    intro hs hd ho hh
    have hy : yielded k.conn.stage (.data chunk) = [] := by cases k.conn.stage <;> rfl
    rw [Client.step, hy, List.append_nil]
    exact stands_heard hs hd ho hh
  have hkept : (site.server current).step k.conn (.data chunk) =
        k.conn.setBehind (k.conn.behind ++ chunk) → Settled k.conn.stage →
      Stands site (k.step site current (.data chunk)) := by
    intro hc hsettled
    have hy : yielded k.conn.stage (.data chunk) = [] := by cases k.conn.stage <;> rfl
    exact stands_kept h (by rw [hc]; exact kept_setBehind _ _) hy (.inr hsettled)
  have hstep : (site.server current).step k.conn (.data chunk) =
    (site.server current).data k.conn chunk := rfl
  cases hs : k.conn.stage with
  | first =>
      simp only [Stands, hs] at h
      obtain ⟨hq, hx, hd, ho, hsent⟩ := h
      refine hheard (by simp [hs]) hd ho ?_
      rw [hstep, data, hs, hsent]
      exact heard_handle hq hx (by simp [hs]) chunk
  | head buffer =>
      simp only [Stands, hs] at h
      obtain ⟨hq, hx, hd, ho, hhttp, hall⟩ := h
      refine hheard (by simp [hs]) hd ho ?_
      have hflat : (k.sent ++ [chunk]).flatten = buffer ++ chunk := by
        rw [List.flatten_append, List.flatten_singleton, hall]
      have hheard := @heard_readHttpHead Node site current k.conn _ hq hx (by simp [hs])
        (hhttp.more [chunk])
      rw [hflat] at hheard
      rw [hstep, data, hs]
      exact hheard
  | request =>
      simp only [Stands, hs] at h
      obtain ⟨hq, hx, hd, ho, hspeaks⟩ := h
      refine hheard (by simp [hs]) hd ho ?_
      rw [hstep, data, hs]
      exact heard_handleSocks5Request hq hx (hspeaks.more [chunk]) chunk
  | connecting node host port reply =>
      exact hkept (by rw [hstep, data, hs]) (by rw [hs]; trivial)
  | answering => exact hkept (by rw [hstep, data, hs]) (by rw [hs]; trivial)
  | done => exact hkept (by rw [hstep, data, hs]) (by rw [hs]; trivial)
  | relaying =>
      have hc : (site.server current).step k.conn (.data chunk) =
          (k.conn.relayed chunk).setBehind (k.conn.behind ++ chunk) := by rw [hstep, data, hs]
      have hd : dialled current k.conn.stage
          ((k.conn.relayed chunk).setBehind (k.conn.behind ++ chunk)).stage = [] :=
        dialled_same current _
      rw [step_quietly hc hd (by rw [hs]; rfl)]
      simp only [Stands, hs] at h
      obtain ⟨reply, hp, hdialled, hspeaks⟩ := h
      have hstage : ((k.conn.relayed chunk).setBehind (k.conn.behind ++ chunk)).stage =
        .relaying := hs
      simp only [Stands, hstage]
      exact ⟨reply, (hp.relayed chunk).kept (kept_setBehind _ _), hdialled, hspeaks.more _⟩

/-- A connection whose target was reached. -/
theorem passing_opened {c : Conn Node} {reply : Reply} (h : Quiet c (greeting reply)) :
    Passing (c.opened reply) (greeting reply ++ success reply) [] ∧
      (c.opened reply).extracted = c.extracted ∧
      ((c.opened reply).stage = .relaying ∨ (c.opened reply).stage = .answering) := by
  cases reply with
  | socks5 rest =>
      have hp := Passing.of_quiet (h.write (socks5Reply 0x00))
      have hx := write_extracted c (socks5Reply 0x00)
      cases hs : (c.write (socks5Reply 0x00)).stage with
      | relaying =>
          have hu : (c.write (socks5Reply 0x00)).unshift rest =
              (c.write (socks5Reply 0x00)).relayed rest := by rw [Conn.unshift, hs]
          rw [Conn.opened, hu]
          exact ⟨(hp.relayed rest).setStage _, hx, .inl rfl⟩
      | _ =>
          have hu : (c.write (socks5Reply 0x00)).unshift rest = c.write (socks5Reply 0x00) := by
            rw [Conn.unshift, hs]
          rw [Conn.opened, hu]
          exact ⟨hp.setStage _, hx, .inl rfl⟩
  | connect =>
      have hp := Passing.of_quiet (h.write established)
      exact ⟨hp.setStage _, write_extracted c _, .inl rfl⟩
  | absolute outbound =>
      have hp := Passing.of_quiet h
      refine ⟨⟨?_, hp.down, hp.downWhole, hp.front, hp.whole⟩, rfl, .inr rfl⟩
      change c.up + outbound.length = (c.toFace ++ outbound).length
      rw [h.up, h.toFace, List.nil_append, Nat.zero_add]

/-- An event that changes nothing but at its stage. -/
theorem stands_idle (h : Stands site k) {e : Event}
    (hc : (site.server current).step k.conn e = k.conn) (hy : yielded k.conn.stage e = [])
    (he : said e = []) : Stands site (k.step site current e) :=
  stands_kept h (by rw [hc]; exact Kept.refl _) hy (.inl he)

theorem stands_connected (h : Stands site k) : Stands site (k.step site current .connected) := by
  have hy : yielded k.conn.stage .connected = [] := by cases k.conn.stage <;> rfl
  cases hs : k.conn.stage with
  | connecting node host port reply =>
      simp only [Stands, hs] at h
      obtain ⟨hq, hd, ho, hspeaks⟩ := h
      obtain ⟨hp, hx, hstage⟩ := passing_opened hq
      have hc : (site.server current).step k.conn .connected = k.conn.opened reply := by
        rw [step, hs]
      have hdial : dialled current k.conn.stage (k.conn.opened reply).stage = [] :=
        dialled_nil (by rcases hstage with hr | ha <;> simp [*])
      have hdialled : Dialled site { k with conn := k.conn.opened reply
                                            sent := k.sent ++ said .connected } := by
        obtain ⟨d, hd, hperm, hn⟩ := hd
        exact ⟨d, hd, hperm, hx.trans hn⟩
      rw [← ho] at hp
      rw [step_quietly hc hdial hy]
      rcases hstage with hr | ha
      · simp only [Stands, hr]
        exact ⟨reply, hp, hdialled, hspeaks.more _⟩
      · simp only [Stands, ha]
        exact ⟨reply, hp, hdialled, hspeaks.more _⟩
  | _ => exact stands_idle h (by rw [step, hs]) hy rfl

theorem stands_connectFailed (h : Stands site k) :
    Stands site (k.step site current .connectFailed) := by
  have hy : yielded k.conn.stage .connectFailed = [] := by cases k.conn.stage <;> rfl
  cases hs : k.conn.stage with
  | connecting node host port reply =>
      simp only [Stands, hs] at h
      obtain ⟨hq, ⟨d, hd, hperm, hx⟩, ho, hspeaks⟩ := h
      have hc : (site.server current).step k.conn .connectFailed = k.conn.refused reply := by
        rw [step, hs]
      obtain ⟨b, hr, ht⟩ : ∃ b, k.conn.refused reply = k.conn.end b ∧
          Transcript site (answers reply) k.conn.extracted k.dials [] (greeting reply ++ b) := by
        rw [hx]
        cases reply with
        | socks5 rest => exact ⟨_, rfl, .failed d.host d.port k.dials (not_rejected hperm)⟩
        | connect => exact ⟨_, rfl, .gateway (by decide) _ k.dials⟩
        | absolute outbound =>
            exact ⟨_, rfl, .gateway (show Protocol.absolute ≠ .socks5 by decide) _ k.dials⟩
      rw [hr] at hc
      rw [step_quietly hc (dialled_nil (by simp [Conn.end])) hy]
      have hstage : (k.conn.end b).stage = .done := rfl
      simp only [Stands, hstage]
      refine ⟨_, hq.end b, .inr ⟨d, hd, hperm, ?_⟩, ho, ?_⟩
      · exact (end_extracted _ _).trans hx
      · rw [end_extracted]
        exact .of_speaks (hspeaks.more _) ht
  | _ => exact stands_idle h (by rw [step, hs]) hy rfl

theorem stands_upstream (h : Stands site k) (chunk : Bytes) :
    Stands site (k.step site current (.upstream chunk)) := by
  have hpump : k.conn.stage = .relaying ∨ k.conn.stage = .answering →
      Stands site (k.step site current (.upstream chunk)) := by
    intro hs
    have hc : (site.server current).step k.conn (.upstream chunk) = k.conn.pump chunk := by
      rcases hs with hs | hs <;> rw [step, hs]
    have hy : yielded k.conn.stage (.upstream chunk) = chunk := by
      rcases hs with hs | hs <;> rw [hs] <;> rfl
    have hstage : (k.conn.pump chunk).stage = k.conn.stage := by
      rw [Conn.pump]
      split <;> rfl
    have hx : (k.conn.pump chunk).extracted = k.conn.extracted := by
      rw [Conn.pump]
      split <;> rfl
    have hopen : ∃ reply, Passing k.conn (greeting reply ++ success reply) k.offered ∧
        Dialled site k ∧ Speaks k.sent (answers reply) := by
      rcases hs with hs | hs
      · simpa only [Stands, hs] using h
      · simpa only [Stands, hs] using h
    obtain ⟨reply, hp, ⟨d, hd, hperm, hn⟩, hspeaks⟩ := hopen
    have hnext : ∃ reply, Passing (k.conn.pump chunk) (greeting reply ++ success reply)
        (k.offered ++ chunk) ∧
          Dialled site ⟨k.conn.pump chunk, k.dials, k.offered ++ chunk, k.sent⟩ ∧
          Speaks k.sent (answers reply) :=
      ⟨reply, hp.pump chunk, ⟨d, hd, hperm, hx.trans hn⟩, hspeaks⟩
    have hsaid : said (.upstream chunk) = [] := rfl
    rw [Client.step, hc, hy, hstage, dialled_same, hsaid, List.append_nil, List.append_nil]
    rcases hs with hs | hs
    · simpa only [Stands, hstage, hs] using hnext
    · simpa only [Stands, hstage, hs] using hnext
  cases hs : k.conn.stage with
  | relaying => exact hpump (.inl hs)
  | answering => exact hpump (.inr hs)
  | _ => exact stands_idle h (by rw [step, hs]) (by rw [hs]; rfl) rfl

theorem stands_clientError (h : Stands site k) :
    Stands site (k.step site current .clientError) := by
  have hy : yielded k.conn.stage .clientError = [] := by cases k.conn.stage <;> rfl
  have hdestroy : ∀ {told}, Quiet k.conn told →
      Tells site k.sent k.conn.extracted ([] : List (Dial Node)) [] told →
      k.dials = [] → k.offered = [] →
      Stands site { k with conn := k.conn.destroy, sent := k.sent ++ said .clientError } := by
    intro told hq ht hd ho
    have hstage : k.conn.destroy.stage = .done := rfl
    simp only [Stands, hstage]
    exact ⟨told, hq.destroy, .inl hd, ho, by rw [hd]; exact ht.more _⟩
  have hdone : dialled current k.conn.stage k.conn.destroy.stage = [] :=
    dialled_nil (by simp [Conn.destroy])
  cases hs : k.conn.stage with
  | head buffer =>
      have hc : (site.server current).step k.conn .clientError = k.conn.destroy := by rw [step, hs]
      simp only [Stands, hs] at h
      obtain ⟨hq, hx, hd, ho, hhttp, -⟩ := h
      rw [step_quietly hc hdone hy]
      exact hdestroy hq (.of_http hhttp fun _ => by rw [hx]; exact .nothing _) hd ho
  | request =>
      have hc : (site.server current).step k.conn .clientError = k.conn.destroy := by rw [step, hs]
      simp only [Stands, hs] at h
      obtain ⟨hq, hx, hd, ho, hspeaks⟩ := h
      rw [step_quietly hc hdone hy]
      exact hdestroy hq (.of_speaks hspeaks (by rw [hx]; exact .greeted)) hd ho
  | relaying =>
      refine stands_kept h ?_ hy (.inl rfl)
      rw [step, hs]
      exact ⟨hs.symm, rfl, rfl, rfl, rfl, rfl, id⟩
  | _ => exact stands_idle h (by rw [step, hs]) hy rfl

theorem stands_step (h : Stands site k) (e : Event) : Stands site (k.step site current e) := by
  have hflat : (∀ chunk, e ≠ .upstream chunk) → yielded k.conn.stage e = [] := by
    intro he
    cases e with
    | upstream chunk => exact absurd rfl (he chunk)
    | _ => cases k.conn.stage <;> rfl
  cases e with
  | data chunk => exact stands_data h chunk
  | connected => exact stands_connected h
  | connectFailed => exact stands_connectFailed h
  | upstream chunk => exact stands_upstream h chunk
  | upstreamEnd =>
      refine stands_kept h ?_ (hflat nofun) (.inl rfl)
      simp only [step]
      split <;> exact ⟨rfl, rfl, rfl, rfl, rfl, rfl, id⟩
  | upstreamError =>
      refine stands_kept h ?_ (hflat nofun) (.inl rfl)
      simp only [step]
      split
      · exact kept_destroyed _
      · exact kept_destroyed _
      · exact Kept.refl _
  | clientEnd =>
      refine stands_kept h ?_ (hflat nofun) (.inl rfl)
      simp only [step]
      split <;> exact ⟨rfl, rfl, rfl, rfl, rfl, rfl, id⟩
  | clientClose =>
      refine stands_kept h ?_ (hflat nofun) (.inl rfl)
      simp only [step]
      split <;> exact ⟨rfl, rfl, rfl, rfl, rfl, rfl, nofun⟩
  | clientError => exact stands_clientError h

end

/-! ## Every run -/

theorem stands_new (site : Site) : Stands site ({} : Client Node) :=
  ⟨⟨rfl, rfl, rfl, List.prefix_rfl, fun _ => rfl⟩, rfl, rfl, rfl, rfl⟩

theorem run_stands (site : Site) (moves : List (Move Node)) {s : Serving Node}
    (h : ∀ k ∈ s.clients, Stands site k) : ∀ k ∈ (s.run site moves).clients, Stands site k := by
  induction moves generalizing s with
  | nil => exact h
  | cons move rest ih =>
      refine ih (s := s.step site move) ?_
      cases move with
      | accept =>
          rw [Serving.step]
          split
          · intro k hk
            rcases List.mem_append.mp hk with hk | hk
            · exact h k hk
            · rw [List.mem_singleton.mp hk]
              exact stands_new site
          · exact h
      | select current => exact h
      | event i e =>
          intro k hk
          obtain ⟨j, hj, rfl⟩ := List.mem_iff_getElem.mp hk
          simp only [Serving.step, List.getElem_modify]
          split
          · exact stands_step (h _ (List.getElem_mem _)) e
          · exact h _ (List.getElem_mem _)
      | stop => exact h

/-- A server has no connection to begin with. -/
theorem run_stands_new (site : Site) (moves : List (Move Node)) :
    ∀ k ∈ (Serving.run site {} moves).clients, Stands site k := by
  refine run_stands site moves fun k hk => ?_
  cases hk

/-- The counters hold the bytes that were passed to the faces, and of those that the faces yielded
the ones written to clients that were still there. -/
theorem run_counters (site : Site) (moves : List (Move Node)) :
    let s := Serving.run site {} moves
    s.counters.1 = (s.clients.map (·.conn.toFace.length)).sum ∧
      s.counters.2 ≤ (s.clients.map (·.offered.length)).sum ∧
      ((∀ k ∈ s.clients, k.conn.destroyed = false) →
        s.counters.2 = (s.clients.map (·.offered.length)).sum) := by
  intro s
  have hsound : ∀ k ∈ s.clients, Sound site k := fun k hk =>
    .of_stands (run_stands_new site moves k hk)
  refine ⟨?_, ?_, fun hopen => ?_⟩
  · exact congrArg List.sum (List.map_congr_left fun k hk => (hsound k hk).up)
  · exact List.sum_le_sum fun k hk => (hsound k hk).down.1
  · exact congrArg List.sum
      (List.map_congr_left fun k hk => (hsound k hk).down.2 (hopen k hk))

end DshClashProxy.Core.Routing
