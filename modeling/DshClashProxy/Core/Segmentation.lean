import DshClashProxy.Core.Relay

/-!
# Inbound messages cut into segments

An HTTP head is collected until it ends, so its cut does not show. A SOCKS5 greeting is
taken to be the first chunk and a SOCKS5 request the next one, whatever they hold.
-/
namespace DshClashProxy.Core.Segmentation

open Js ProxyServer Client Inbound Relay

variable {Node : Type} {server : ProxyServer Node}

/-- A well-formed client stream. -/
inductive Stream where
  | http (head : HttpHead) (more : Bytes)
  | socks5 (greeting : Greeting) (request : Request) (tunnel : Bytes)

/-- A cut of a stream into chunks. The SOCKS5 request is sent after the reply to the
greeting, so no chunk holds parts of both. -/
inductive Cut : Stream → Type where
  | http {head : HttpHead} {more : Bytes} (chunks : List Bytes) (nonempty : ∀ c ∈ chunks, c ≠ [])
      (whole : chunks.flatten = head.encode ++ more) : Cut (.http head more)
  | socks5 {greeting : Greeting} {request : Request} {tunnel : Bytes}
      (first second : List Bytes) (nonempty : ∀ c ∈ first ++ second, c ≠ [])
      (greets : first.flatten = greeting.encode)
      (asks : second.flatten = request.encode ++ tunnel) : Cut (.socks5 greeting request tunnel)

def Cut.chunks {s : Stream} : Cut s → List Bytes
  | .http chunks _ _ => chunks
  | .socks5 first second _ _ _ => first ++ second

/-- Each message in a chunk of its own, and then the rest if there is any. -/
def Stream.messages : Stream → List Bytes
  | .http head more => head.encode :: [more].filter (· ≠ [])
  | .socks5 greeting request tunnel =>
      greeting.encode :: request.encode :: [tunnel].filter (· ≠ [])

/-- The target the server extracts, and the bytes it leaves behind the message. -/
def outcome (server : ProxyServer Node) (chunks : List Bytes) : Option (Text × Number) × Bytes :=
  ((server.run (chunks.map .data)).extracted, (server.run (chunks.map .data)).behind)

/-- The greeting comes in one chunk and the request within the next. -/
def Cut.Whole {s : Stream} : Cut s → Prop
  | .http _ _ _ => True
  | @Cut.socks5 _ request _ first second _ _ _ =>
      first.length = 1 ∧ ∃ c ∈ second.head?, request.encode <+: c

theorem flatten_filter (b : Bytes) : ([b].filter (· ≠ [])).flatten = b := by
  by_cases h : b = []
  · simp [h]
  · simp [h]

/-! ## HTTP -/

theorem outcome_http (head : HttpHead) {more : Bytes} {chunks : List Bytes}
    (hne : ∀ c ∈ chunks, c ≠ []) (hf : chunks.flatten = head.encode ++ more) :
    outcome server chunks = ((server.handleHead {} head.text).extracted, more) := by
  rw [outcome, run_head head hne hf]
  rfl

theorem outcome_http_messages (head : HttpHead) (more : Bytes) :
    outcome server (Stream.http head more).messages =
      ((server.handleHead {} head.text).extracted, more) := by
  apply outcome_http head
  · intro c hc
    rw [Stream.messages, List.mem_cons] at hc
    rcases hc with rfl | hc
    · simp [HttpHead.encode, headEnd]
    · simpa using (List.mem_filter.mp hc).2
  · rw [Stream.messages, List.flatten_cons, flatten_filter]

/-! ## SOCKS5 -/

/-- A request that is read is extracted, whatever becomes of it then. -/
theorem handleSocks5Request_some (server : ProxyServer Node) {c : Conn Node} {header rest : Bytes}
    {host : Text} {port : Nat} (h : readSocks5Request header = some (host, port, rest)) :
    (server.handleSocks5Request c header).extracted = some (host, .finite port) ∧
      (server.handleSocks5Request c header).behind = rest ∧
      Deaf (server.handleSocks5Request c header).stage := by
  have hend : ∀ reply : Bytes,
      (((c.extract host (.finite port)).setBehind rest).end reply).extracted =
          some (host, .finite port) ∧
        (((c.extract host (.finite port)).setBehind rest).end reply).behind = rest ∧
        Deaf (((c.extract host (.finite port)).setBehind rest).end reply).stage := by
    intro reply
    unfold Conn.end Conn.write
    split <;> exact ⟨rfl, rfl, trivial⟩
  unfold handleSocks5Request
  rw [h]
  simp only
  split
  · exact hend _
  · split
    · exact hend _
    · exact ⟨rfl, rfl, trivial⟩

theorem outcome_deaf (server : ProxyServer Node) {c : Conn Node} (h : Deaf c.stage)
    (chunks : List Bytes) :
    (server.runFrom c (chunks.map .data)).extracted = c.extracted ∧
      (server.runFrom c (chunks.map .data)).behind = c.behind ++ chunks.flatten := by
  rw [runFrom_deaf h]
  exact ⟨rfl, rfl⟩

/-- The outcome from the request phase on. -/
theorem outcome_request (server : ProxyServer Node) {c : Conn Node} (hs : c.stage = .request)
    (hx : c.extracted = none) (chunk : Bytes) (rest : List Bytes) :
    (readSocks5Request chunk = none ∧
        (server.runFrom c ((chunk :: rest).map .data)).extracted = none) ∨
      ∃ host port left, readSocks5Request chunk = some (host, port, left) ∧
        (server.runFrom c ((chunk :: rest).map .data)).extracted = some (host, .finite port) ∧
        (server.runFrom c ((chunk :: rest).map .data)).behind = left ++ rest.flatten := by
  have hd : server.data c chunk = server.handleSocks5Request c chunk := by rw [data, hs]
  change (_ ∧ (server.runFrom (server.data c chunk) (rest.map .data)).extracted = none) ∨
    ∃ host port left, _ ∧
      (server.runFrom (server.data c chunk) (rest.map .data)).extracted = _ ∧
      (server.runFrom (server.data c chunk) (rest.map .data)).behind = _
  rw [hd]
  cases hr : readSocks5Request chunk with
  | none =>
      have hn : server.handleSocks5Request c chunk = c.destroy := by
        rw [handleSocks5Request, hr]
      have hdeaf : Deaf c.destroy.stage := trivial
      refine Or.inl ⟨rfl, ?_⟩
      rw [hn, (outcome_deaf server hdeaf rest).1]
      exact hx
  | some t =>
      obtain ⟨host, port, left⟩ := t
      obtain ⟨he, hb, hdeaf⟩ := handleSocks5Request_some server (c := c) hr
      obtain ⟨hoe, hob⟩ := outcome_deaf server hdeaf rest
      exact Or.inr ⟨host, port, left, rfl, hoe.trans he, by rw [hob, hb]⟩

/-- A chunk of the greeting leads to the request phase or leaves the connection deaf. -/
theorem handleSocks5_cases (Node : Type) (chunk : Bytes) :
    ((handleSocks5 ({} : Conn Node) chunk).stage = .request ∨
        Deaf (handleSocks5 ({} : Conn Node) chunk).stage) ∧
      (handleSocks5 ({} : Conn Node) chunk).extracted = none := by
  unfold handleSocks5
  split
  · exact ⟨Or.inl rfl, rfl⟩
  · exact ⟨Or.inr trivial, rfl⟩

/-- A greeting in several chunks is never answered with the outcome of the whole one: either
nothing is extracted, or the request itself is left behind. -/
theorem outcome_ne_of_cut_greeting (server : ProxyServer Node) {chunk : Bytes}
    (hc : chunk.head? = some 0x05) (g : Bytes) (gs second : List Bytes) {request : Request}
    {tunnel : Bytes} (hs : second.flatten = request.encode ++ tunnel) (target : Text × Number) :
    outcome server (chunk :: g :: gs ++ second) ≠ (some target, tunnel) := by
  have hd : server.data {} chunk = handleSocks5 {} chunk := by
    change server.handle {} chunk = _
    rw [handle, if_pos hc]
  intro h
  rw [outcome, Prod.mk.injEq] at h
  obtain ⟨he, hb⟩ := h
  change (server.runFrom (server.data {} chunk) ((g :: (gs ++ second)).map .data)).extracted = _
    at he
  change (server.runFrom (server.data {} chunk) ((g :: (gs ++ second)).map .data)).behind = _
    at hb
  rw [hd] at he hb
  obtain ⟨hstage, hx⟩ := handleSocks5_cases Node chunk
  rcases hstage with hstage | hstage
  · rcases outcome_request server hstage hx g (gs ++ second) with
      ⟨_, hn⟩ | ⟨_, _, left, _, _, hleft⟩
    · rw [hn] at he
      cases he
    · rw [hleft, List.flatten_append, hs] at hb
      have hl := congrArg List.length hb
      simp only [List.length_append, Request.encode, List.length_cons] at hl
      omega
  · rw [(outcome_deaf server hstage _).1, hx] at he
    cases he

/-- With the greeting in one chunk, the outcome depends on the next chunk alone. -/
theorem outcome_whole_greeting (server : ProxyServer Node) (greeting : Greeting)
    {request : Request} {tunnel chunk : Bytes} {rest : List Bytes}
    (hf : chunk ++ rest.flatten = request.encode ++ tunnel) :
    outcome server (greeting.encode :: chunk :: rest) =
        (some (request.address.host, .finite request.port), tunnel) ↔ request.encode <+: chunk := by
  have hrun : server.run ((greeting.encode :: chunk :: rest).map .data) =
      server.runFrom ((Conn.write {} [0x05, 0x00]).setStage .request)
        ((chunk :: rest).map .data) := by
    rw [← handleSocks5_greeting server greeting]
    rfl
  have hreq := outcome_request server (c := (Conn.write {} [0x05, 0x00]).setStage .request)
    rfl rfl chunk rest
  rw [outcome, hrun, Prod.mk.injEq]
  constructor
  · intro h
    obtain ⟨he, _⟩ := h
    rcases hreq with ⟨_, hn⟩ | ⟨_, _, _, hr, _, _⟩
    · rw [hn] at he
      cases he
    · rcases List.prefix_or_prefix_of_prefix ⟨rest.flatten, hf⟩
        (List.prefix_append request.encode tunnel) with hp | hp
      · by_cases heq : chunk = request.encode
        · rw [heq]
        · rw [readSocks5Request_truncated hp heq] at hr
          cases hr
      · exact hp
  · intro h
    obtain ⟨left, rfl⟩ := h
    rw [List.append_assoc, List.append_cancel_left_eq] at hf
    rcases hreq with ⟨hn, _⟩ | ⟨_, _, _, hr, he, hb⟩
    · rw [readSocks5Request_encode] at hn
      cases hn
    · rw [readSocks5Request_encode] at hr
      cases hr
      exact ⟨he, by rw [hb, hf]⟩

theorem outcome_socks5_iff (server : ProxyServer Node) {greeting : Greeting} {request : Request}
    {tunnel : Bytes} {first second : List Bytes} (hne : ∀ c ∈ first ++ second, c ≠ [])
    (hg : first.flatten = greeting.encode) (hs : second.flatten = request.encode ++ tunnel) :
    outcome server (first ++ second) =
        (some (request.address.host, .finite request.port), tunnel) ↔
      first.length = 1 ∧ ∃ c ∈ second.head?, request.encode <+: c := by
  match first with
  | [] => cases hg
  | [g] =>
      rw [List.flatten_singleton] at hg
      subst hg
      match second with
      | [] =>
          rw [List.flatten_nil] at hs
          exact absurd hs.symm (by simp [Request.encode])
      | chunk :: rest =>
          rw [List.flatten_cons] at hs
          simp only [List.singleton_append, List.length_singleton, true_and, List.head?_cons,
            Option.mem_some_iff, exists_eq_left']
          exact outcome_whole_greeting server greeting hs
  | chunk :: g :: gs =>
      have hc : chunk.head? = some 0x05 := by
        obtain ⟨b, tail, hb⟩ := List.exists_cons_of_ne_nil (hne chunk (by simp))
        have hh := congrArg List.head? hg
        rw [hb] at hh ⊢
        exact hh
      constructor
      · intro h
        exact absurd h (outcome_ne_of_cut_greeting server hc g gs second hs _)
      · intro h
        obtain ⟨hl, _⟩ := h
        simp at hl

/-- The cut of a stream does not show exactly when it is an HTTP stream, or the SOCKS5
greeting comes in one chunk and the request within the next. -/
theorem cut_unseen_iff (server : ProxyServer Node) {s : Stream} (cut : Cut s) :
    outcome server cut.chunks = outcome server s.messages ↔ cut.Whole := by
  cases cut with
  | @http head more chunks nonempty whole =>
      rw [outcome_http_messages]
      exact iff_of_true (outcome_http head nonempty whole) trivial
  | @socks5 greeting request tunnel first second nonempty greets asks =>
      have hm : outcome server (Stream.socks5 greeting request tunnel).messages =
          (some (request.address.host, .finite request.port), tunnel) := by
        apply (outcome_whole_greeting server greeting _).mpr (List.prefix_refl _)
        rw [flatten_filter]
      rw [hm]
      exact outcome_socks5_iff server nonempty greets asks

/-- The greeting without authentication alone, and a request for port 80 of the loopback. -/
def localRequest : Stream :=
  .socks5 ⟨[0x00], by decide, by decide⟩ ⟨.ip4 [127, 0, 0, 1] rfl, 80, by decide⟩ []

/-- A request whose last byte comes in a segment of its own is not read. -/
def lastByteLate : Cut localRequest :=
  .socks5 [[0x05, 0x01, 0x00]] [[0x05, 0x01, 0x00, 0x01, 127, 0, 0, 1, 0], [80]] (by decide) rfl
    rfl

theorem request_in_two_segments :
    ¬ ∀ (s : Stream) (cut : Cut s),
      outcome directServer cut.chunks = outcome directServer s.messages := by
  intro h
  obtain ⟨_, c, hc, hp⟩ := (cut_unseen_iff directServer lastByteLate).mp (h _ lastByteLate)
  cases hc
  exact absurd hp (by decide)

end DshClashProxy.Core.Segmentation
