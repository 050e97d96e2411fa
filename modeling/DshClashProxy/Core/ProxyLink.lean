import DshClashProxy.Core.Connectors
import DshClashProxy.Core.Routing
import DshClashProxy.Lib.Carriers

/-!
# The link between two servers

The node of one server may be another such server, reached as an HTTP or a SOCKS5 proxy. The
transport function of the first and a connection of the second run against each other: the target
that is dialled is the one asked for, and both directions deliver behind the handshake. The second
server reads each SOCKS5 message out of one event, so there the messages must arrive uncut.
-/
namespace DshClashProxy.Core.ProxyLink

open Js Js.Text ProxyServer Lib.ByteSource Lib.Carriers Routing Connectors
open Lib.Resumption (Program)

/-! ## The way of a transport function -/

section
variable {ε α : Type} {p q r : Steps ε α} {sent sent' : List Bytes} {heard heard' : Bytes}

/-- On its way from one point to another a function has written and read this. -/
inductive Walks : Steps ε α → List Bytes → Bytes → Steps ε α → Prop where
  | here (p : Steps ε α) : Walks p [] [] p
  | writes {data : Bytes} {next : Unit → Steps ε α} {q : Steps ε α} {sent : List Bytes}
      {heard : Bytes} (h : Walks (next ()) sent heard q) :
      Walks (.ask (.write data) next) (data :: sent) heard q
  | sends {data : Bytes} {next : Unit → Steps ε α} {q : Steps ε α} {sent : List Bytes}
      {heard : Bytes} (h : Walks (next ()) sent heard q) :
      Walks (.ask (.send data) next) (data :: sent) heard q
  | reads {b : Bytes} {next : Bytes → Steps ε α} {q : Steps ε α} {sent : List Bytes}
      {heard : Bytes} (h : Walks (next b) sent heard q) :
      Walks (.ask (.read b.length) next) sent (b ++ heard) q

theorem Walks.trans (h : Walks p sent heard q) (h' : Walks q sent' heard' r) :
    Walks p (sent ++ sent') (heard ++ heard') r := by
  induction h with
  | here p => exact h'
  | writes h ih => exact .writes (ih h')
  | sends h ih => exact .sends (ih h')
  | reads h ih =>
      rw [List.append_assoc]
      exact .reads (ih h')

theorem onList_read (count : Nat) (next : Bytes → Steps ε α) (l : Bytes) :
    onList (runOn _ (.ask (.read count) next) sent) l =
      if count ≤ l.length then onList (runOn _ (next (l.take count)) sent) (l.drop count)
      else none := by
  refine (@runOn_ask_read (Source.ofList UInt8) ε α sent count next l).trans ?_
  by_cases h : count ≤ l.length
  · have hread : (Source.ofList UInt8).read l count = some (l.take count, l.drop count) := if_pos h
    rw [if_pos h, hread]
    rfl
  · have hread : (Source.ofList UInt8).read l count = none := if_neg h
    rw [if_neg h, hread]
    rfl

/-- What a function returns on a stream it returns from any point of its way on the rest. -/
theorem Walks.run (h : Walks p sent heard q) (before : List Bytes) (rest : Bytes) :
    onList (runOn _ p before) (heard ++ rest) = onList (runOn _ q (before ++ sent)) rest := by
  induction h generalizing before with
  | here p => rw [List.append_nil, List.nil_append]
  | @writes data next q sent heard h ih =>
      have hone := ih (before ++ [data])
      rw [List.append_assoc] at hone
      exact hone
  | @sends data next q sent heard h ih =>
      have hone := ih (before ++ [data])
      rw [List.append_assoc] at hone
      exact hone
  | @reads b next q sent heard h ih =>
      have hle : b.length ≤ (b ++ heard ++ rest).length := by
        simp only [List.length_append]
        omega
      rw [onList_read, if_pos hle, List.append_assoc, List.take_left, List.drop_left]
      exact ih before

theorem sent_front {l rest : Bytes} {a : α} {out : List Bytes}
    (h : onList (runOn _ q sent) l = some (.ok (a, out), rest)) : sent <+: out := by
  induction q generalizing sent l with
  | done b =>
      cases h
      exact List.prefix_rfl
  | fail e => cases h
  | ask request next ih =>
      cases request with
      | write data => exact (List.prefix_append sent [data]).trans (ih () h)
      | send data => exact (List.prefix_append sent [data]).trans (ih () h)
      | read count =>
          rw [onList_read] at h
          split at h
          · exact ih _ h
          · cases h

/-- The way begins at a write. -/
theorem Walks.of_write {β : Type} {data : Bytes} {f : Unit → Steps ε β} {q : Steps ε β}
    (h : Walks (write data >>= f) sent heard q) :
    (sent = [] ∧ heard = []) ∨ ∃ more, sent = data :: more ∧ Walks (f ()) more heard q := by
  generalize hp : (write data >>= f : Steps ε β) = p at h
  cases h with
  | here p => exact .inl ⟨rfl, rfl⟩
  | writes h =>
      cases hp
      exact .inr ⟨_, rfl, h⟩
  | sends h => cases hp
  | reads h => cases hp

theorem Walks.of_read {β : Type} {count : Nat} {f : Bytes → Steps ε β} {q : Steps ε β}
    (h : Walks (read count >>= f) sent heard q) :
    (sent = [] ∧ heard = []) ∨
      ∃ b more, b.length = count ∧ heard = b ++ more ∧ Walks (f b) sent more q := by
  generalize hp : (read count >>= f : Steps ε β) = p at h
  cases h with
  | here p => exact .inl ⟨rfl, rfl⟩
  | writes h => cases hp
  | sends h => cases hp
  | @reads b _ _ _ more h =>
      cases hp
      exact .inr ⟨b, more, rfl, rfl, h⟩

end

/-! ## What a client was told stays told -/

section
variable {Node : Type} {server : ProxyServer Node} {c : Conn Node}

theorem told_write (c : Conn Node) (b : Bytes) : c.toClient <+: (c.write b).toClient := by
  rw [Conn.write]
  split
  · exact List.prefix_rfl
  · exact List.prefix_append _ _

theorem told_end (c : Conn Node) (b : Bytes) : c.toClient <+: (c.end b).toClient := told_write c b

theorem told_unshift (c : Conn Node) (b : Bytes) : (c.unshift b).toClient = c.toClient := by
  unfold Conn.unshift
  split <;> rfl

theorem told_handleHead (head : Text) : c.toClient <+: (server.handleHead c head).toClient := by
  have hbad : c.toClient <+: (c.end badRequest).toClient := told_end c _
  simp only [handleHead]
  split
  · split
    · next target _ =>
        unfold handleConnect
        split
        · exact hbad
        · next host port _ =>
            split
            · exact told_end (c.extract host port) _
            · exact List.prefix_rfl
    · exact List.prefix_rfl
  · split
    · split
      · next target _ _ =>
          unfold handleAbsolute
          split
          · exact hbad
          · next url _ =>
              split
              · exact told_end (c.extract url.hostname (urlPort url)) _
              · exact List.prefix_rfl
      · exact hbad
    · exact hbad

theorem told_readHttpHead (buffer : Bytes) :
    c.toClient <+: (server.readHttpHead c buffer).toClient := by
  unfold readHttpHead
  split
  · exact List.prefix_rfl
  · next stop _ =>
      have hrest := @told_handleHead Node server
        ((c.unshift (buffer.drop (stop + 4))).setBehind (buffer.drop (stop + 4)))
        (Bytes.latin1 (buffer.take stop))
      change (c.unshift (buffer.drop (stop + 4))).toClient <+: _ at hrest
      rwa [told_unshift] at hrest

theorem told_data (chunk : Bytes) : c.toClient <+: (server.data c chunk).toClient := by
  unfold data
  split
  · unfold handle
    split
    · unfold handleSocks5
      split
      · exact told_write c _
      · exact (told_write c _).trans (told_end _ [])
    · exact told_readHttpHead chunk
  · unfold handleSocks5Request
    split
    · exact List.prefix_rfl
    · next host port rest _ =>
        have hend := told_end ((c.extract host (.finite port)).setBehind rest)
        split
        · exact hend _
        · split
          · exact hend _
          · exact List.prefix_rfl
  · exact told_readHttpHead _
  · exact List.prefix_rfl
  · exact List.prefix_rfl

theorem told_step (e : Event) : c.toClient <+: (server.step c e).toClient := by
  cases e with
  | data chunk => exact told_data chunk
  | connected =>
      simp only [step]
      split
      · next reply _ =>
          cases reply with
          | socks5 rest =>
              refine (told_write c (socks5Reply 0x00)).trans ?_
              change _ <+: ((c.write (socks5Reply 0x00)).unshift rest).toClient
              rw [told_unshift]
          | connect => exact told_write c established
          | absolute outbound => exact List.prefix_rfl
      · exact List.prefix_rfl
  | connectFailed =>
      simp only [step]
      split
      · next reply _ => cases reply <;> exact told_end c _
      · exact List.prefix_rfl
  | upstream chunk =>
      have hpump : c.toClient <+: (c.pump chunk).toClient := by
        rw [Conn.pump]
        split
        · exact List.prefix_rfl
        · exact List.prefix_append _ _
      simp only [step]
      split <;> first | exact hpump | exact List.prefix_rfl
  | _ =>
      simp only [step]
      split <;> exact List.prefix_rfl

end

/-! ## The link -/

/-- The first server asks for a target in these words, and the second tells it in these that it
is reached or that it is not. -/
structure Dialect where
  connector : Steps Text Unit
  messages : List Bytes
  host : Text
  port : Number
  reply : Reply
  refusals : List Bytes

def Dialect.request (d : Dialect) : Bytes := d.messages.flatten

/-- What a client reads before the answer of its target. -/
def Dialect.welcome (d : Dialect) : Bytes := greeting d.reply ++ success d.reply

/-- The transport function of one server, and a connection of the next. Of what the function, and
then the face, has written some is still in flight; of what the connection has written this much
has arrived. The other fields are history: what the function has written and read, what was
written to the face and what was read from it. -/
structure Link (Node : Type) where
  connector : Steps Text Unit
  flight : Bytes := []
  next : Client Node := {}
  arrived : Nat := 0
  sent : List Bytes := []
  heard : Bytes := []
  written : Bytes := []
  got : Bytes := []

inductive Turn (Node : Type) where
  /-- The function goes on to its next await. -/
  | advance
  /-- `write` of its face. -/
  | write (data : Bytes)
  /-- The generator `read` of its face gets some bytes. -/
  | read (n : Nat)
  /-- The next server gets what is in flight in one event, or so much of it. -/
  | segment (current : Option Node) (size : Option Nat)
  | arrive (n : Nat)
  /-- Any other event of that connection. -/
  | event (current : Option Node) (e : Event) (h : ∀ chunk, e ≠ .data chunk)

def Turn.Whole {Node : Type} : Turn Node → Prop
  | .segment _ (some _) => False
  | _ => True

section
variable {Node : Type} (site : Site)

/-- What has arrived and has not been read. -/
def Link.ready (l : Link Node) : Bytes :=
  (l.next.conn.toClient.take l.arrived).drop (l.heard.length + l.got.length)

def Link.connected (l : Link Node) : Bool :=
  match l.connector with
  | .done () => true
  | _ => false

def Link.advance (l : Link Node) : Link Node :=
  match l.connector with
  | .ask (.write data) next =>
      { l with connector := next (), flight := l.flight ++ data, sent := l.sent ++ [data] }
  | .ask (.send data) next =>
      { l with connector := next (), flight := l.flight ++ data, sent := l.sent ++ [data] }
  | .ask (.read count) next =>
      if count ≤ l.ready.length then
        { l with connector := next (l.ready.take count), heard := l.heard ++ l.ready.take count }
      else l
  | _ => l

/-- The chunk of the next data event. -/
def Link.chunk (l : Link Node) : Option Nat → Bytes
  | none => l.flight
  | some n => l.flight.take n

def Link.step (l : Link Node) : Turn Node → Link Node
  | .advance => l.advance
  | .write data =>
      if l.connected then { l with flight := l.flight ++ data, written := l.written ++ data }
      else l
  | .read n => if l.connected then { l with got := l.got ++ l.ready.take n } else l
  | .segment current size =>
      if l.chunk size = [] then l
      else { l with next := l.next.step site current (.data (l.chunk size)),
                    flight := l.flight.drop (l.chunk size).length }
  | .arrive n => { l with arrived := min (l.arrived + n) l.next.conn.toClient.length }
  | .event current e _ => { l with next := l.next.step site current e }

def Link.run (l : Link Node) (turns : List (Turn Node)) : Link Node :=
  turns.foldl (Link.step site) l

end

/-! ## What each turn keeps -/

section
variable {Node : Type} {site : Site}

/-- A message of the request is still to come: at this stage the connection has been given this
much and has told this. -/
abbrev Asking (Node : Type) := Bytes → Stage Node → Bytes → Prop

/-- Where a connection stands that has been given this much. -/
inductive Serves (d : Dialect) (asking : Asking Node) (k : Client Node) (given : Bytes) :
    Prop where
  | asking {stage : Stage Node} {told : Bytes} (asks : asking given stage told)
      (stage : k.conn.stage = stage) (quiet : Quiet k.conn told) (unnamed : k.conn.extracted = none)
  | dialling (node : Option Node) (stage : k.conn.stage = .connecting node d.host d.port d.reply)
      (quiet : Quiet k.conn (greeting d.reply)) (named : k.conn.extracted = some (d.host, d.port))
      (same : given = d.request)
  | relaying (stage : k.conn.stage = .relaying) (passing : Passing k.conn d.welcome k.offered)
      (named : k.conn.extracted = some (d.host, d.port)) (same : given = d.request ++ k.conn.toFace)
  | left (stage : k.conn.stage = .done) {told : Bytes} (refusal : told ∈ d.refusals)
      (quiet : Quiet k.conn told)
      (named : ∀ target, k.conn.extracted = some target → target = (d.host, d.port))

/-- What a client reads when its target cannot be reached. -/
def refusal : Reply → Bytes
  | .socks5 _ => socks5Reply 0x05
  | .connect => badGateway
  | .absolute _ => badGateway

/-- The second server takes the request for its target, and the first what it is told. -/
structure Dialect.Speaks (d : Dialect) (site : Site) (whole : Prop) (asking : Asking Node) :
    Prop where
  welcomed : Source.Consumes (runOn (Source.ofList UInt8) d.connector []) d.welcome ((), d.messages)
  refused : ∀ told ∈ d.refusals, ∀ sent rest,
    onList (runOn _ d.connector []) told ≠ some (.ok ((), sent), rest)
  failed : greeting d.reply ++ refusal d.reply ∈ d.refusals
  tunnels : ∀ outbound, d.reply ≠ .absolute outbound
  begins : asking [] .first []
  waits : ∀ {given stage told}, asking given stage told →
    told <+: greeting d.reply ∧ (stage = .first ∨ stage = .request ∨ ∃ b, stage = .head b)
  hears : ∀ {k : Client Node} {current : Option Node} {given chunk heard : Bytes}
    {stage : Stage Node} {told : Bytes} {sent : List Bytes} {q : Steps Text Unit},
    asking given stage told → k.conn.stage = stage → Quiet k.conn told →
    k.conn.extracted = none → Walks d.connector sent heard q → heard <+: told →
    sent.flatten <+: d.request → chunk ≠ [] → given ++ chunk <+: sent.flatten →
    (whole → given ++ chunk = sent.flatten) →
    Serves d asking (k.step site current (.data chunk)) (given ++ chunk)

variable {d : Dialect} {whole : Prop} {asking : Asking Node} {l : Link Node} {given : Bytes}
  {k : Client Node} {current : Option Node} {q : Steps Text Unit} {sent : List Bytes}
  {heard : Bytes}

/-! ### The first server -/

theorem Dialect.Speaks.on_way (hd : d.Speaks site whole asking)
    (h : Walks d.connector sent heard q) {more : Bytes} (hf : heard <+: d.welcome ++ more) :
    sent <+: d.messages ∧ (∀ message, q ≠ .fail message) ∧
      (q = .done () → heard = d.welcome ∧ sent = d.messages) := by
  obtain ⟨rest, hrest⟩ := hf
  have hrun := h.run [] rest
  rw [hrest, List.nil_append, onList_consumes hd.welcomed more] at hrun
  refine ⟨sent_front hrun.symm, ?_, ?_⟩
  · rintro message rfl
    cases hrun
  · rintro rfl
    obtain ⟨hout, hleft⟩ := Prod.mk.inj (Option.some.inj hrun)
    obtain rfl : more = rest := hleft
    have hsent : d.messages = sent := (Prod.mk.inj (Except.ok.inj hout)).2
    exact ⟨List.append_cancel_right hrest, hsent.symm⟩

theorem Dialect.Speaks.not_done (hd : d.Speaks site whole asking)
    (h : Walks d.connector sent heard q) {told : Bytes} (ht : told ∈ d.refusals)
    (hf : heard <+: told) : q ≠ .done () := by
  rintro rfl
  obtain ⟨rest, rfl⟩ := hf
  exact hd.refused _ ht _ _ (h.run [] rest)

theorem Dialect.Speaks.welcome_ne (hd : d.Speaks site whole asking) :
    success d.reply ≠ [] := by
  cases hr : d.reply with
  | socks5 rest => exact List.cons_ne_nil _ _
  | connect => exact by decide
  | absolute outbound => exact absurd hr (hd.tunnels outbound)

/-- Before its target is reached nothing goes behind the request. -/
theorem Dialect.Speaks.early (hd : d.Speaks site whole asking)
    (h : Walks d.connector sent heard q) (hf : heard <+: greeting d.reply) :
    sent.flatten <+: d.request ∧ q ≠ .done () ∧ ∀ message, q ≠ .fail message := by
  obtain ⟨rest, hrest⟩ := hf
  have hwelcome : heard <+: d.welcome ++ [] := by
    rw [List.append_nil, Dialect.welcome, ← hrest, List.append_assoc]
    exact List.prefix_append _ _
  obtain ⟨⟨more, hmore⟩, hfail, hdone⟩ := hd.on_way h hwelcome
  refine ⟨⟨more.flatten, by rw [← List.flatten_append, hmore, Dialect.request]⟩, ?_, hfail⟩
  intro hq
  have hlen := congrArg List.length ((hdone hq).1)
  rw [Dialect.welcome, ← hrest, List.length_append, List.length_append] at hlen
  have hpos := List.length_pos_iff.mpr hd.welcome_ne
  omega

/-! ### The second server -/

theorem refused_eq (c : Conn Node) (reply : Reply) : c.refused reply = c.end (refusal reply) := by
  cases reply <;> rfl

/-- Before a target is named the other events at most lose the socket. -/
theorem step_waiting (server : ProxyServer Node) {c : Conn Node}
    (hs : c.stage = .first ∨ c.stage = .request ∨ ∃ b, c.stage = .head b) {e : Event}
    (he : ∀ chunk, e ≠ .data chunk) : Kept c (server.step c e) ∨ server.step c e = c.destroy := by
  cases e with
  | data chunk => exact absurd rfl (he chunk)
  | clientClose =>
      have hstep : server.step c .clientClose = { c with destroyed := true } := by
        rcases hs with hs | hs | ⟨b, hs⟩ <;> rw [step, hs]
      rw [hstep]
      exact .inl (kept_destroyed c)
  | clientError =>
      rcases hs with hs | hs | ⟨b, hs⟩
      · have hstep : server.step c .clientError = c := by rw [step, hs]
        rw [hstep]
        exact .inl (Kept.refl c)
      · exact .inr (by rw [step, hs])
      · exact .inr (by rw [step, hs])
  | _ =>
      left
      rcases hs with hs | hs | ⟨b, hs⟩ <;> rw [step, hs] <;> exact Kept.refl c

/-- A connection that was left stays so, and at most its socket is lost. -/
theorem step_left (server : ProxyServer Node) {c : Conn Node} (hs : c.stage = .done) (e : Event) :
    ∃ behind, Kept (c.setBehind behind) (server.step c e) := by
  cases e with
  | data chunk =>
      refine ⟨c.behind ++ chunk, ?_⟩
      have hstep : server.step c (.data chunk) = c.setBehind (c.behind ++ chunk) := by
        rw [step, data, hs]
      rw [hstep]
      exact Kept.refl _
  | clientClose =>
      refine ⟨c.behind, ?_⟩
      have hstep : server.step c .clientClose = { c with destroyed := true } := by rw [step, hs]
      rw [hstep]
      exact kept_destroyed c
  | _ =>
      refine ⟨c.behind, ?_⟩
      simp only [step, hs]
      exact Kept.refl c

theorem Serves.of_left (hs : k.conn.stage = .done) {told : Bytes} (ht : told ∈ d.refusals)
    (hq : Quiet k.conn told)
    (hn : ∀ target, k.conn.extracted = some target → target = (d.host, d.port)) (e : Event)
    (given : Bytes) : Serves d asking (k.step site current e) given := by
  obtain ⟨behind, hkept⟩ := step_left (site.server current) hs e
  exact .left (hkept.stage.trans hs) ht ((hq.setBehind behind).kept hkept)
    fun target hx => hn target (hkept.extracted.symm.trans hx)

/-- What a relaying connection passes to its face. -/
def passed : Event → Bytes
  | .data chunk => chunk
  | _ => []

/-- The events of a relaying connection that no chunk comes with. -/
theorem kept_relaying (server : ProxyServer Node) {c : Conn Node} (hs : c.stage = .relaying)
    {e : Event} (hdata : ∀ chunk, e ≠ .data chunk) (hup : ∀ chunk, e ≠ .upstream chunk) :
    Kept c (server.step c e) := by
  cases e with
  | data chunk => exact absurd rfl (hdata chunk)
  | upstream chunk => exact absurd rfl (hup chunk)
  | connected =>
      simp only [step, hs]
      exact Kept.refl c
  | connectFailed =>
      simp only [step, hs]
      exact Kept.refl c
  | upstreamEnd =>
      simp only [step, hs]
      exact ⟨rfl, rfl, rfl, rfl, rfl, rfl, id⟩
  | upstreamError =>
      simp only [step, hs]
      exact ⟨hs.symm, rfl, rfl, rfl, rfl, rfl, fun h => by cases h⟩
  | clientEnd =>
      simp only [step, hs]
      exact ⟨hs.symm, rfl, rfl, rfl, rfl, rfl, id⟩
  | clientClose =>
      simp only [step, hs]
      exact ⟨hs.symm, rfl, rfl, rfl, rfl, rfl, fun h => by cases h⟩
  | clientError =>
      simp only [step, hs]
      exact ⟨hs.symm, rfl, rfl, rfl, rfl, rfl, id⟩

/-- The events of a connection whose target was reached. -/
theorem step_relaying (server : ProxyServer Node) {c : Conn Node} (hs : c.stage = .relaying)
    {told offered : Bytes} (h : Passing c told offered) (e : Event) :
    (server.step c e).stage = .relaying ∧
      Passing (server.step c e) told (offered ++ yielded c.stage e) ∧
      (server.step c e).extracted = c.extracted ∧
      (server.step c e).toFace = c.toFace ++ passed e := by
  have hkept : yielded (Stage.relaying : Stage Node) e = [] → passed e = [] →
      Kept c (server.step c e) → (server.step c e).stage = .relaying ∧
        Passing (server.step c e) told (offered ++ yielded (Stage.relaying : Stage Node) e) ∧
        (server.step c e).extracted = c.extracted ∧
        (server.step c e).toFace = c.toFace ++ passed e := by
    intro hy hp hk
    rw [hy, hp, List.append_nil, List.append_nil]
    exact ⟨hk.stage.trans hs, h.kept hk, hk.extracted, hk.toFace⟩
  rw [hs]
  cases e with
  | data chunk =>
      have hstep : server.step c (.data chunk) =
          (c.relayed chunk).setBehind (c.behind ++ chunk) := by rw [step, data, hs]
      have hnone : offered ++ yielded (Stage.relaying : Stage Node) (.data chunk) = offered :=
        List.append_nil _
      rw [hstep, hnone]
      have hp := h.relayed chunk
      exact ⟨hs, ⟨hp.up, hp.down, hp.downWhole, hp.front, hp.whole⟩, rfl, rfl⟩
  | upstream chunk =>
      have hstep : server.step c (.upstream chunk) = c.pump chunk := by rw [step, hs]
      have hpump : (c.pump chunk).stage = c.stage ∧ (c.pump chunk).extracted = c.extracted ∧
          (c.pump chunk).toFace = c.toFace := by
        rw [Conn.pump]
        split <;> exact ⟨rfl, rfl, rfl⟩
      rw [hstep]
      exact ⟨hpump.1.trans hs, h.pump chunk, hpump.2.1,
        hpump.2.2.trans (List.append_nil _).symm⟩
  | _ => exact hkept rfl rfl (kept_relaying server hs (fun _ h => by cases h) fun _ h => by cases h)

theorem Serves.of_relaying (hs : k.conn.stage = .relaying) (hp : Passing k.conn d.welcome k.offered)
    (hn : k.conn.extracted = some (d.host, d.port)) (hg : given = d.request ++ k.conn.toFace)
    (e : Event) : Serves d asking (k.step site current e) (given ++ passed e) := by
  obtain ⟨hstage, hpassing, hx, hface⟩ := step_relaying (site.server current) hs hp e
  refine .relaying hstage hpassing (hx.trans hn) ?_
  change _ = d.request ++ ((site.server current).step k.conn e).toFace
  rw [hface, hg, List.append_assoc]

theorem opened_relays {c : Conn Node} {reply : Reply} (hr : ∀ outbound, reply ≠ .absolute outbound)
    {node : Option Node} {host : Text} {port : Number}
    (hs : c.stage = .connecting node host port reply) :
    (c.opened reply).stage = .relaying ∧ (c.opened reply).toFace = c.toFace := by
  have hwrite : ∀ b, (c.write b).stage = c.stage ∧ (c.write b).toFace = c.toFace := by
    intro b
    rw [Conn.write]
    split <;> exact ⟨rfl, rfl⟩
  cases reply with
  | socks5 rest =>
      have hunshift : (c.write (socks5Reply 0x00)).unshift rest = c.write (socks5Reply 0x00) := by
        rw [Conn.unshift, (hwrite _).1, hs]
      rw [Conn.opened, hunshift]
      exact ⟨rfl, (hwrite _).2⟩
  | connect => exact ⟨rfl, (hwrite _).2⟩
  | absolute outbound => exact absurd rfl (hr outbound)

/-- While the target is dialled only the outcome matters, and whether the socket is lost. -/
theorem Serves.of_dialling (hd : d.Speaks site whole asking) {node : Option Node}
    (hs : k.conn.stage = .connecting node d.host d.port d.reply)
    (hq : Quiet k.conn (greeting d.reply)) (hn : k.conn.extracted = some (d.host, d.port))
    (hg : given = d.request) (hstands : Stands site k) {e : Event}
    (he : ∀ chunk, e ≠ .data chunk) : Serves d asking (k.step site current e) given := by
  have hkept : Kept k.conn ((site.server current).step k.conn e) →
      Serves d asking (k.step site current e) given := fun hk =>
    .dialling node (hk.stage.trans hs) (hq.kept hk) (hk.extracted.trans hn) hg
  have hoffered : k.offered = [] := by
    rw [Stands, hs] at hstands
    exact hstands.2.2.1
  cases e with
  | data chunk => exact absurd rfl (he chunk)
  | connected =>
      have hstep : (site.server current).step k.conn .connected = k.conn.opened d.reply := by
        rw [step, hs]
      obtain ⟨hp, hx, -⟩ := passing_opened hq
      obtain ⟨hstage, hface⟩ := opened_relays hd.tunnels hs
      rw [← hstep] at hp hx hstage hface
      have hnone : k.offered ++ yielded k.conn.stage .connected = [] := by
        rw [hoffered, hs]
        rfl
      refine .relaying hstage ?_ (hx.trans hn) ?_
      · change Passing _ d.welcome (k.offered ++ yielded k.conn.stage .connected)
        rw [hnone]
        exact hp
      · change given = d.request ++ ((site.server current).step k.conn .connected).toFace
        rw [hface, hq.toFace, List.append_nil, hg]
  | connectFailed =>
      have hstep : (site.server current).step k.conn .connectFailed =
          k.conn.end (refusal d.reply) := by
        rw [step, hs]
        exact refused_eq _ _
      refine .left ?_ hd.failed ?_ fun target hx => ?_
      · change ((site.server current).step k.conn .connectFailed).stage = _
        rw [hstep]
        rfl
      · change Quiet ((site.server current).step k.conn .connectFailed) _
        rw [hstep]
        exact hq.end _
      · change ((site.server current).step k.conn .connectFailed).extracted = _ at hx
        rw [hstep, end_extracted, hn] at hx
        exact (Option.some.inj hx).symm
  | clientClose =>
      refine hkept ?_
      have hstep : (site.server current).step k.conn .clientClose =
          { k.conn with destroyed := true } := by simp only [step, hs]
      rw [hstep]
      exact kept_destroyed _
  | _ =>
      refine hkept ?_
      simp only [step, hs]
      exact Kept.refl _

theorem Serves.of_asking (hd : d.Speaks site whole asking) {stage : Stage Node} {told : Bytes}
    (ha : asking given stage told) (hs : k.conn.stage = stage) (hq : Quiet k.conn told)
    (hn : k.conn.extracted = none) {e : Event} (he : ∀ chunk, e ≠ .data chunk) :
    Serves d asking (k.step site current e) given := by
  obtain ⟨hfront, hwaits⟩ := hd.waits ha
  rw [← hs] at hwaits
  rcases step_waiting (site.server current) hwaits he with hk | hk
  · exact .asking ha (hk.stage.trans hs) (hq.kept hk) (hk.extracted.trans hn)
  · refine .left ?_ hd.failed ?_ fun target hx => ?_
    · change ((site.server current).step k.conn e).stage = _
      rw [hk]
      rfl
    · change Quiet ((site.server current).step k.conn e) _
      rw [hk]
      have hdestroy := hq.destroy
      exact ⟨hdestroy.toFace, hdestroy.up, hdestroy.down,
        (hdestroy.front.trans hfront).trans (List.prefix_append _ _), fun h => by cases h⟩
    · change ((site.server current).step k.conn e).extracted = _ at hx
      rw [hk] at hx
      exact absurd (hx.symm.trans hn) (by simp)

theorem Serves.event (hd : d.Speaks site whole asking) (h : Serves d asking k given)
    (hstands : Stands site k) {e : Event} (he : ∀ chunk, e ≠ .data chunk) :
    Serves d asking (k.step site current e) given := by
  cases h with
  | asking asks stage quiet unnamed => exact .of_asking hd asks stage quiet unnamed he
  | dialling node stage quiet named same =>
      exact .of_dialling hd stage quiet named same hstands he
  | relaying stage passing named same =>
      have hnone : passed e = [] := by
        cases e with
        | data chunk => exact absurd rfl (he chunk)
        | _ => rfl
      have hnext : Serves d asking (k.step site current e) (given ++ passed e) :=
        .of_relaying stage passing named same e
      rwa [hnone, List.append_nil] at hnext
  | left stage refusal quiet named => exact .of_left stage refusal quiet named e given

/-! ### The two together -/

/-- What holds of a link all the time. -/
structure Linked (d : Dialect) (site : Site) (asking : Asking Node) (l : Link Node) : Prop where
  stands : Stands site l.next
  walk : Walks d.connector l.sent l.heard l.connector
  front : l.heard ++ l.got <+: l.next.conn.toClient
  early : l.connected = false → l.written = [] ∧ l.got = []
  serves : ∃ given, given ++ l.flight = l.sent.flatten ++ l.written ∧ Serves d asking l.next given

theorem linked_new (hd : d.Speaks site whole asking) :
    Linked d site asking ({ connector := d.connector } : Link Node) where
  stands := stands_new site
  walk := .here _
  front := List.prefix_rfl
  early _ := ⟨rfl, rfl⟩
  serves := ⟨[], rfl, .asking hd.begins rfl ⟨rfl, rfl, rfl, List.prefix_rfl, fun _ => rfl⟩ rfl⟩

/-- What is read next comes right behind what was read. -/
theorem ready_front (h : l.heard ++ l.got <+: l.next.conn.toClient) (n : Nat) :
    l.heard ++ l.got ++ l.ready.take n <+: l.next.conn.toClient := by
  obtain ⟨rest, hrest⟩ := h
  have hready : l.ready = rest.take (l.arrived - (l.heard ++ l.got).length) := by
    rw [Link.ready, ← List.length_append, List.drop_take, ← hrest, List.drop_left]
  rw [← hrest, hready]
  exact (List.prefix_append_right_inj _).mpr ((List.take_prefix _ _).trans (List.take_prefix _ _))

theorem connected_false {l : Link Node} {request : Await}
    {next : request.Answer → Steps Text Unit} (h : l.connector = .ask request next) :
    l.connected = false := by
  rw [Link.connected, h]

/-- A message that the function writes follows what is in flight. -/
theorem Linked.sends (h : Linked d site asking l) {data : Bytes} {connector : Steps Text Unit}
    (hwalk : Walks l.connector [data] [] connector) (hc : l.connected = false) :
    Linked d site asking { l with connector, flight := l.flight ++ data,
                                  sent := l.sent ++ [data] } := by
  obtain ⟨given, hsame, hserves⟩ := h.serves
  obtain ⟨hwritten, hgot⟩ := h.early hc
  refine ⟨h.stands, ?_, h.front, fun _ => ⟨hwritten, hgot⟩, given, ?_, hserves⟩
  · have hall := h.walk.trans hwalk
    rwa [List.append_nil] at hall
  · rw [hwritten, List.append_nil] at hsame ⊢
    rw [← List.append_assoc, hsame, List.flatten_append, List.flatten_singleton]

theorem Linked.advance (h : Linked d site asking l) : Linked d site asking l.advance := by
  unfold Link.advance
  split
  · next data next hc =>
      refine h.sends ?_ (connected_false hc)
      rw [hc]
      exact .writes (.here _)
  · next data next hc =>
      refine h.sends ?_ (connected_false hc)
      rw [hc]
      exact .sends (.here _)
  · next count next hc =>
      split
      · next hle =>
          obtain ⟨hwritten, hgot⟩ := h.early (connected_false hc)
          have hlen : (l.ready.take count).length = count := List.length_take_of_le hle
          refine ⟨h.stands, ?_, ?_, fun _ => ⟨hwritten, hgot⟩, h.serves⟩
          · have hwalk : Walks l.connector [] (l.ready.take count ++ [])
                (next (l.ready.take count)) := by
              rw [hc]
              conv => arg 1; rw [← hlen]
              exact .reads (.here _)
            have hall := h.walk.trans hwalk
            rwa [List.append_nil, List.append_nil] at hall
          · have hfront := ready_front h.front count
            rw [hgot, List.append_nil] at hfront ⊢
            exact hfront
      · exact h
  · exact h

/-- What a relaying connection has told begins with the welcome. -/
theorem Serves.front (h : Serves d asking k given) (hd : d.Speaks site whole asking) :
    (k.conn.toClient <+: greeting d.reply) ∨
      (k.conn.stage = .relaying ∧ k.conn.toClient <+: d.welcome ++ k.offered) ∨
      ∃ told ∈ d.refusals, k.conn.toClient <+: told := by
  cases h with
  | asking asks stage quiet unnamed => exact .inl (quiet.front.trans (hd.waits asks).1)
  | dialling node stage quiet named same => exact .inl quiet.front
  | relaying stage passing named same => exact .inr (.inl ⟨stage, passing.front⟩)
  | left stage refusal quiet named => exact .inr (.inr ⟨_, refusal, quiet.front⟩)

theorem Linked.heard_front (h : Linked d site asking l) : l.heard <+: l.next.conn.toClient :=
  (List.prefix_append _ _).trans h.front

/-- Once the function has returned the face, the next server relays. -/
theorem Linked.relays (h : Linked d site asking l) (hd : d.Speaks site whole asking)
    (hc : l.connector = .done ()) :
    l.next.conn.stage = .relaying ∧ l.heard = d.welcome ∧ l.sent = d.messages := by
  obtain ⟨given, -, hserves⟩ := h.serves
  rcases hserves.front hd with hfront | ⟨hs, hfront⟩ | ⟨told, ht, hfront⟩
  · exact absurd hc (hd.early h.walk (h.heard_front.trans hfront)).2.1
  · obtain ⟨-, -, hdone⟩ := hd.on_way h.walk (h.heard_front.trans hfront)
    exact ⟨hs, hdone hc⟩
  · exact absurd hc (hd.not_done h.walk ht (h.heard_front.trans hfront))

theorem connected_iff : l.connected = true ↔ l.connector = .done () := by
  unfold Link.connected
  split
  · next h => exact iff_of_true rfl h
  · next h => exact iff_of_false Bool.false_ne_true h

theorem Linked.quiet (h : Linked d site asking l) (hc : l.connector ≠ .done ()) :
    l.written = [] ∧ l.got = [] :=
  h.early (Bool.eq_false_iff.mpr fun ht => hc (connected_iff.mp ht))

/-- A data event, of what is in flight. -/
theorem Linked.segment (h : Linked d site asking l) (hd : d.Speaks site whole asking)
    {chunk : Bytes} (hne : chunk ≠ []) (hpre : chunk <+: l.flight)
    (hwhole : whole → chunk = l.flight) :
    Linked d site asking { l with next := l.next.step site current (.data chunk),
                                  flight := l.flight.drop chunk.length } := by
  obtain ⟨given, hsame, hserves⟩ := h.serves
  have hrest : chunk ++ l.flight.drop chunk.length = l.flight := by
    obtain ⟨rest, hr⟩ := hpre
    rw [← hr, List.drop_left]
  refine ⟨stands_step h.stands _, h.walk, h.front.trans (told_step _), h.early, given ++ chunk, ?_,
    ?_⟩
  · rw [List.append_assoc, hrest, hsame]
  cases hserves with
  | @asking stage told asks at' quiet unnamed =>
      have hheard := h.heard_front.trans quiet.front
      obtain ⟨hsent, hnot, -⟩ := hd.early h.walk (hheard.trans (hd.waits asks).1)
      rw [(h.quiet hnot).1, List.append_nil, ← hrest, ← List.append_assoc] at hsame
      refine hd.hears asks at' quiet unnamed h.walk hheard hsent hne ⟨_, hsame⟩ fun hw => ?_
      have hnil : l.flight.drop chunk.length = [] := by rw [hwhole hw, List.drop_length]
      rwa [hnil, List.append_nil] at hsame
  | dialling node stage quiet named same =>
      obtain ⟨hsent, hnot, -⟩ := hd.early h.walk (h.heard_front.trans quiet.front)
      rw [(h.quiet hnot).1, List.append_nil, ← hrest, ← List.append_assoc] at hsame
      have hle := hsent.length_le
      rw [← hsame, same, List.length_append, List.length_append] at hle
      have hpos := List.length_pos_iff.mpr hne
      omega
  | relaying stage passing named same => exact .of_relaying stage passing named same _
  | left stage refusal quiet named => exact .of_left stage refusal quiet named _ _

theorem Linked.step (h : Linked d site asking l) (hd : d.Speaks site whole asking)
    {turn : Turn Node} (hw : whole → turn.Whole) : Linked d site asking (l.step site turn) := by
  cases turn with
  | advance => exact h.advance
  | write data =>
      rw [Link.step]
      split
      · next hc =>
          obtain ⟨given, hsame, hserves⟩ := h.serves
          refine ⟨h.stands, h.walk, h.front, fun hf => absurd (hc.symm.trans hf) (by decide), given,
            ?_, hserves⟩
          rw [← List.append_assoc, hsame, List.append_assoc]
      · exact h
  | read n =>
      rw [Link.step]
      split
      · next hc =>
          refine ⟨h.stands, h.walk, ?_, fun hf => absurd (hc.symm.trans hf) (by decide), h.serves⟩
          rw [← List.append_assoc]
          exact ready_front h.front n
      · exact h
  | segment current size =>
      rw [Link.step]
      split
      · exact h
      · next hne =>
          cases size with
          | none => exact h.segment hd hne List.prefix_rfl fun _ => rfl
          | some n =>
              exact h.segment hd hne (List.take_prefix n _) fun hwhole => absurd (hw hwhole) id
  | arrive n => exact ⟨h.stands, h.walk, h.front, h.early, h.serves⟩
  | event current e he =>
      obtain ⟨given, hsame, hserves⟩ := h.serves
      exact ⟨stands_step h.stands e, h.walk, h.front.trans (told_step e), h.early, given, hsame,
        hserves.event hd h.stands he⟩

theorem Linked.run (h : Linked d site asking l) (hd : d.Speaks site whole asking)
    {turns : List (Turn Node)} (hw : whole → ∀ turn ∈ turns, turn.Whole) :
    Linked d site asking (l.run site turns) := by
  induction turns generalizing l with
  | nil => exact h
  | cons turn rest ih =>
      exact ih (h.step hd fun hwhole => hw hwhole turn List.mem_cons_self)
        fun hwhole t ht => hw hwhole t (List.mem_cons_of_mem _ ht)

/-! ### Nothing has to stay behind -/

theorem run_append (l : Link Node) (turns more : List (Turn Node)) :
    l.run site (turns ++ more) = (l.run site turns).run site more := List.foldl_append

/-- Only the function has gone on. -/
structure Advanced (l l' : Link Node) : Prop where
  next : l'.next = l.next
  written : l'.written = l.written
  got : l'.got = l.got
  arrived : l'.arrived = l.arrived

theorem Advanced.trans {l l' l'' : Link Node} (h : Advanced l l') (h' : Advanced l' l'') :
    Advanced l l'' :=
  ⟨h'.next.trans h.next, h'.written.trans h.written, h'.got.trans h.got, h'.arrived.trans h.arrived⟩

theorem advanced (l : Link Node) : Advanced l l.advance := by
  unfold Link.advance
  split
  · exact ⟨rfl, rfl, rfl, rfl⟩
  · exact ⟨rfl, rfl, rfl, rfl⟩
  · split <;> exact ⟨rfl, rfl, rfl, rfl⟩
  · exact ⟨rfl, rfl, rfl, rfl⟩

/-- One await takes its part of the front of what has arrived. -/
theorem advance_run (hgot : l.got = []) {request : Await} {next : request.Answer → Steps Text Unit}
    (hc : l.connector = .ask request next) {result : Except Text (Unit × List Bytes) × Bytes}
    (hrun : onList (runOn _ l.connector l.sent) l.ready = some result) :
    (∃ a, l.advance.connector = next a) ∧
      onList (runOn _ l.advance.connector l.advance.sent) l.advance.ready = some result := by
  rw [hc] at hrun
  cases request with
  | write data =>
      have ha : l.advance = { l with connector := next (), flight := l.flight ++ data,
                                     sent := l.sent ++ [data] } := by rw [Link.advance, hc]
      rw [ha]
      exact ⟨⟨(), rfl⟩, hrun⟩
  | send data =>
      have ha : l.advance = { l with connector := next (), flight := l.flight ++ data,
                                     sent := l.sent ++ [data] } := by rw [Link.advance, hc]
      rw [ha]
      exact ⟨⟨(), rfl⟩, hrun⟩
  | read count =>
      rw [onList_read] at hrun
      split at hrun
      · next hle =>
          have ha : l.advance = { l with connector := next (l.ready.take count),
                                         heard := l.heard ++ l.ready.take count } := by
            rw [Link.advance, hc]
            exact if_pos hle
          have hready : l.advance.ready = l.ready.drop count := by
            have hlen : (l.ready.take count).length = count := List.length_take_of_le hle
            rw [ha, Link.ready, Link.ready, List.drop_drop, List.length_append]
            change List.drop (l.heard.length + (l.ready.take count).length + l.got.length) _ = _
            rw [hlen, hgot]
            rfl
          rw [hready, ha]
          exact ⟨⟨_, rfl⟩, hrun⟩
      · cases hrun

/-- A function that could return on what has arrived does so. -/
theorem advances {messages : List Bytes} {rest : Bytes} (hgot : l.got = [])
    (hrun : onList (runOn _ l.connector l.sent) l.ready = some (.ok ((), messages), rest)) :
    ∃ turns, (l.run site turns).connector = .done () ∧ Advanced l (l.run site turns) ∧
      ∀ turn ∈ turns, turn.Whole := by
  generalize hq : l.connector = q
  induction q generalizing l with
  | done a => exact ⟨[], hq, ⟨rfl, rfl, rfl, rfl⟩, fun _ h => by cases h⟩
  | fail e =>
      rw [hq] at hrun
      cases hrun
  | ask request next ih =>
      obtain ⟨⟨a, hnext⟩, hrun'⟩ := advance_run hgot hq hrun
      obtain ⟨turns, hdone, hadv, hall⟩ := ih a ((advanced l).got.trans hgot) hrun' hnext
      refine ⟨.advance :: turns, hdone, (advanced l).trans hadv, fun turn ht => ?_⟩
      rcases List.mem_cons.mp ht with rfl | ht
      · exact trivial
      · exact hall turn ht

/-! ## Every run -/

/-- What both ends of a link may rely on. The next server dials at most the target it was asked
for, under its own rules; the face exists only once that is reached; nothing passes when the
function throws; and what each side gets is the front of what the other gave, to which the rest
can still be brought while the next server relays. -/
structure Delivers (d : Dialect) (site : Site) (l : Link Node) : Prop where
  sound : Sound site l.next
  named : ∀ target, l.next.conn.extracted = some target → target = (d.host, d.port)
  dialled : l.connector = .done () →
    ∃ dial, l.next.dials = [dial] ∧ dial.host = d.host ∧ dial.port = d.port
  failed : ∀ message, l.connector = .fail message →
    l.next.conn.toFace = [] ∧ l.next.offered = []
  up : l.next.conn.toFace <+: l.written
  down : l.got <+: l.next.offered
  rest : l.next.conn.stage = .relaying → l.next.conn.destroyed = false →
    ∃ turns, (∀ turn ∈ turns, turn.Whole) ∧ (l.run site turns).connector = .done () ∧
      (l.run site turns).next.conn.toFace = l.written ∧ (l.run site turns).got = l.next.offered

theorem Linked.relaying (h : Linked d site asking l) (hd : d.Speaks site whole asking)
    (hs : l.next.conn.stage = .relaying) :
    Passing l.next.conn d.welcome l.next.offered ∧
      d.request ++ l.next.conn.toFace ++ l.flight = l.sent.flatten ++ l.written := by
  obtain ⟨given, hsame, hserves⟩ := h.serves
  cases hserves with
  | asking asks at' quiet unnamed =>
      obtain ⟨-, hstage⟩ := hd.waits asks
      rw [← at', hs] at hstage
      rcases hstage with h | h | ⟨b, h⟩ <;> cases h
  | dialling node stage quiet named same =>
      rw [hs] at stage
      cases stage
  | relaying stage passing named same => exact ⟨passing, same ▸ hsame⟩
  | left stage refusal quiet named =>
      rw [hs] at stage
      cases stage

/-- Behind the handshake the wire holds what was written to the face. -/
theorem Linked.written_eq (h : Linked d site asking l) (hd : d.Speaks site whole asking)
    (hc : l.connector = .done ()) : l.written = l.next.conn.toFace ++ l.flight := by
  obtain ⟨hs, -, hsent⟩ := h.relays hd hc
  obtain ⟨-, hsame⟩ := h.relaying hd hs
  rw [hsent, List.append_assoc] at hsame
  exact (List.append_cancel_left hsame).symm

/-- All of what the next server tells comes in, and the function reads its part of it. -/
theorem Linked.connects (h : Linked d site asking l) (hd : d.Speaks site whole asking)
    (hs : l.next.conn.stage = .relaying) (hopen : l.next.conn.destroyed = false)
    (harrived : l.arrived = l.next.conn.toClient.length) :
    ∃ turns, (l.run site turns).connector = .done () ∧ Advanced l (l.run site turns) ∧
      ∀ turn ∈ turns, turn.Whole := by
  by_cases hc : l.connector = .done ()
  · exact ⟨[], hc, ⟨rfl, rfl, rfl, rfl⟩, fun _ h => by cases h⟩
  · have hgot := (h.quiet hc).2
    have htold := (h.relaying hd hs).1.whole hopen
    obtain ⟨rest, hrest⟩ := h.heard_front
    have hready : l.ready = rest := by
      rw [Link.ready, harrived, List.take_length, hgot, ← hrest]
      exact List.drop_left
    have hrun := h.walk.run [] rest
    rw [hrest, htold, List.nil_append, onList_consumes hd.welcomed, ← hready] at hrun
    exact advances hgot hrun.symm

/-- The face is read to the end of what has come in. -/
theorem Linked.read_all (h : Linked d site asking l) (hd : d.Speaks site whole asking)
    (hc : l.connector = .done ()) (hopen : l.next.conn.destroyed = false)
    (harrived : l.arrived = l.next.conn.toClient.length) :
    (l.step site (.read l.ready.length)).got = l.next.offered := by
  obtain ⟨hs, hheard, -⟩ := h.relays hd hc
  have htold := (h.relaying hd hs).1.whole hopen
  obtain ⟨rest, hrest⟩ := h.front
  have hready : l.ready = rest := by
    rw [Link.ready, harrived, List.take_length, ← List.length_append, ← hrest]
    exact List.drop_left
  rw [Link.step, if_pos (connected_iff.mpr hc), hready, List.take_length]
  rw [htold, hheard, List.append_assoc] at hrest
  exact List.append_cancel_left hrest

variable (site) in
theorem segment_all (l : Link Node) :
    (l.step site (.segment none none)).flight = [] ∧
      (l.step site (.segment none none)).connector = l.connector ∧
      (l.step site (.segment none none)).written = l.written ∧
      (l.step site (.segment none none)).got = l.got := by
  rw [Link.step]
  split
  · next hnil => exact ⟨hnil, rfl, rfl, rfl⟩
  · exact ⟨List.drop_length, rfl, rfl, rfl⟩

theorem Linked.rest (h : Linked d site asking l) (hd : d.Speaks site whole asking)
    (hs : l.next.conn.stage = .relaying) (hopen : l.next.conn.destroyed = false) :
    ∃ turns, (∀ turn ∈ turns, turn.Whole) ∧ (l.run site turns).connector = .done () ∧
      (l.run site turns).next.conn.toFace = l.written ∧
      (l.run site turns).got = l.next.offered := by
  -- everything arrives, the function returns, its face is read, and the wire is emptied
  have h₁ : Linked d site asking (l.step site (.arrive l.next.conn.toClient.length)) :=
    h.step hd fun _ => trivial
  obtain ⟨turns, hdone, hadv, hall⟩ :=
    h₁.connects hd hs hopen (Nat.min_eq_right (Nat.le_add_left ..))
  have h₂ := h₁.run hd fun _ => hall
  generalize hl₂ : (l.step site (.arrive l.next.conn.toClient.length)).run site turns = l₂ at *
  have hnext : l₂.next = l.next := hadv.next
  have harrived : l₂.arrived = l₂.next.conn.toClient.length := by
    rw [hnext]
    exact hadv.arrived.trans (Nat.min_eq_right (Nat.le_add_left ..))
  have hgot := h₂.read_all hd hdone (by rw [hnext]; exact hopen) harrived
  have h₃ : Linked d site asking (l₂.step site (.read l₂.ready.length)) :=
    h₂.step hd fun _ => trivial
  have hread : l₂.step site (.read l₂.ready.length) =
      { l₂ with got := l₂.got ++ l₂.ready.take l₂.ready.length } := by
    rw [Link.step, if_pos (connected_iff.mpr hdone)]
  have h₄ : Linked d site asking
      ((l₂.step site (.read l₂.ready.length)).step site (.segment none none)) :=
    h₃.step hd fun _ => trivial
  obtain ⟨hflight, hconn, hwritten, hgot₄⟩ := segment_all site
    (l₂.step site (.read l₂.ready.length))
  have hdone₄ := hconn.trans ((congrArg Link.connector hread).trans hdone)
  refine ⟨.arrive l.next.conn.toClient.length :: turns ++
    [.read l₂.ready.length, .segment none none], fun turn ht => ?_, ?_⟩
  · rcases List.mem_append.mp ht with ht | ht
    · rcases List.mem_cons.mp ht with rfl | ht
      · exact trivial
      · exact hall turn ht
    · rcases List.mem_cons.mp ht with rfl | ht
      · exact trivial
      · rw [List.mem_singleton.mp ht]
        exact trivial
  · have hrun : l.run site (.arrive l.next.conn.toClient.length :: turns ++
        [.read l₂.ready.length, .segment none none]) =
        (l₂.step site (.read l₂.ready.length)).step site (.segment none none) := by
      rw [run_append]
      exact congrArg (fun l' => Link.run site l' [.read l₂.ready.length, .segment none none]) hl₂
    have hall₄ := h₄.written_eq hd hdone₄
    rw [hflight, List.append_nil] at hall₄
    rw [hrun]
    refine ⟨hdone₄, ?_, hgot₄.trans (hgot.trans (congrArg Client.offered hnext))⟩
    exact hall₄.symm.trans (hwritten.trans ((congrArg Link.written hread).trans hadv.written))

theorem Linked.named (h : Linked d site asking l) {target : Text × Number}
    (hx : l.next.conn.extracted = some target) : target = (d.host, d.port) := by
  obtain ⟨given, -, hserves⟩ := h.serves
  cases hserves with
  | asking asks stage quiet unnamed =>
      rw [unnamed] at hx
      cases hx
  | dialling node stage quiet named same => exact Option.some.inj (hx.symm.trans named)
  | relaying stage passing named same => exact Option.some.inj (hx.symm.trans named)
  | left stage refusal quiet named => exact named target hx

theorem Linked.dialled (h : Linked d site asking l) (hd : d.Speaks site whole asking)
    (hc : l.connector = .done ()) :
    ∃ dial, l.next.dials = [dial] ∧ dial.host = d.host ∧ dial.port = d.port := by
  have hstands := h.stands
  rw [Stands, (h.relays hd hc).1] at hstands
  obtain ⟨reply, -, ⟨dial, hdials, -, hx⟩, -⟩ := hstands
  obtain ⟨hhost, hport⟩ := Prod.mk.inj (h.named hx)
  exact ⟨dial, hdials, hhost, hport⟩

theorem Linked.failed (h : Linked d site asking l) (hd : d.Speaks site whole asking)
    {message : Text} (hc : l.connector = .fail message) :
    l.next.conn.toFace = [] ∧ l.next.offered = [] := by
  obtain ⟨given, -, hserves⟩ := h.serves
  have hstands := h.stands
  cases hserves with
  | asking asks stage quiet unnamed =>
      have hfront := (h.heard_front.trans quiet.front).trans (hd.waits asks).1
      exact absurd hc ((hd.early h.walk hfront).2.2 message)
  | dialling node stage quiet named same =>
      exact absurd hc ((hd.early h.walk (h.heard_front.trans quiet.front)).2.2 message)
  | relaying stage passing named same =>
      exact absurd hc ((hd.on_way h.walk (h.heard_front.trans passing.front)).2.1 message)
  | left stage refusal quiet named =>
      rw [Stands, stage] at hstands
      obtain ⟨told, -, -, hoffered, -⟩ := hstands
      exact ⟨quiet.toFace, hoffered⟩

/-- Before the function returns the face, the next server has nothing for its own. -/
theorem Linked.face_nil (h : Linked d site asking l) (hd : d.Speaks site whole asking)
    (hc : l.connector ≠ .done ()) : l.next.conn.toFace = [] := by
  obtain ⟨given, hsame, hserves⟩ := h.serves
  cases hserves with
  | asking asks stage quiet unnamed => exact quiet.toFace
  | dialling node stage quiet named same => exact quiet.toFace
  | relaying stage passing named same =>
      obtain ⟨⟨more, hmore⟩, -, -⟩ := hd.on_way h.walk (h.heard_front.trans passing.front)
      rw [same, (h.quiet hc).1, List.append_nil] at hsame
      have hlen := congrArg List.length hsame
      have hrequest : d.request.length = l.sent.flatten.length + more.flatten.length := by
        rw [Dialect.request, ← hmore, List.flatten_append, List.length_append]
      simp only [List.length_append] at hlen
      exact List.length_eq_zero_iff.mp (by omega)
  | left stage refusal quiet named => exact quiet.toFace

theorem Linked.delivers (h : Linked d site asking l) (hd : d.Speaks site whole asking) :
    Delivers d site l where
  sound := .of_stands h.stands
  named _ := h.named
  dialled := h.dialled hd
  failed _ := h.failed hd
  up := by
    by_cases hc : l.connector = .done ()
    · rw [h.written_eq hd hc]
      exact List.prefix_append _ _
    · rw [h.face_nil hd hc]
      exact List.nil_prefix
  down := by
    by_cases hc : l.connector = .done ()
    · obtain ⟨hs, hheard, -⟩ := h.relays hd hc
      have hfront := h.front.trans (h.relaying hd hs).1.front
      rw [hheard] at hfront
      exact (List.prefix_append_right_inj _).mp hfront
    · rw [(h.quiet hc).2]
      exact List.nil_prefix
  rest := h.rest hd

theorem run_delivers (hd : d.Speaks site whole asking) {turns : List (Turn Node)}
    (hw : whole → ∀ turn ∈ turns, turn.Whole) :
    Delivers d site (({ connector := d.connector } : Link Node).run site turns) :=
  ((linked_new hd).run hd hw).delivers hd

end

end DshClashProxy.Core.ProxyLink
