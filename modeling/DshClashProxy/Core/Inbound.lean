import DshClashProxy.Core.Client

/-!
# Reading a message in pieces

Without a listener a connection only notes what comes in. A head is read the same way
however it is cut into chunks.
-/
namespace DshClashProxy.Core.Inbound

open Js Js.Text ProxyServer Client

variable {Node : Type} (server : ProxyServer Node)

/-- No `data` listener is attached. -/
def Deaf : Stage Node → Prop
  | .connecting _ _ _ _ => True
  | .answering => True
  | .done => True
  | _ => False

variable {server}

theorem data_deaf {c : Conn Node} (h : Deaf c.stage) (chunk : Bytes) :
    server.data c chunk = c.setBehind (c.behind ++ chunk) := by
  unfold data
  split
  · next hs => rw [hs] at h; exact h.elim
  · next hs => rw [hs] at h; exact h.elim
  · next hs => rw [hs] at h; exact h.elim
  · next hs => rw [hs] at h; exact h.elim
  · rfl

theorem runFrom_append (c : Conn Node) (a b : List Event) :
    server.runFrom c (a ++ b) = server.runFrom (server.runFrom c a) b := List.foldl_append

theorem runFrom_deaf {c : Conn Node} (h : Deaf c.stage) (chunks : List Bytes) :
    server.runFrom c (chunks.map .data) = c.setBehind (c.behind ++ chunks.flatten) := by
  induction chunks generalizing c with
  | nil =>
      rw [List.flatten_nil, List.append_nil]
      rfl
  | cons chunk rest ih =>
      have hr := ih (c := c.setBehind (c.behind ++ chunk)) h
      change server.runFrom (server.data c chunk) (rest.map .data) = _
      rw [data_deaf h, hr, List.flatten_cons, ← List.append_assoc]
      rfl

/-! ## HTTP heads -/

theorem end_frame (c : Conn Node) (s : Stage Node) (b reply : Bytes) :
    ((c.setStage s).setBehind b).end reply = (c.end reply).setBehind b := by
  by_cases hd : c.destroyed = true
  · simp [Conn.end, Conn.write, Conn.setStage, Conn.setBehind, hd]
  · simp [Conn.end, Conn.write, Conn.setStage, Conn.setBehind, hd]

theorem handleConnect_frame (c : Conn Node) (s : Stage Node) (b : Bytes) (target : Text) :
    server.handleConnect ((c.setStage s).setBehind b) target =
      (server.handleConnect c target).setBehind b := by
  unfold handleConnect
  split
  · exact end_frame c s b badRequest
  · next host port _ =>
      split
      · simp only
        exact end_frame (c.extract host port) s b badGateway
      · rfl

theorem handleAbsolute_frame (c : Conn Node) (s : Stage Node) (b : Bytes) (method target : Text)
    (lines : List Text) :
    server.handleAbsolute ((c.setStage s).setBehind b) method target lines =
      (server.handleAbsolute c method target lines).setBehind b := by
  unfold handleAbsolute
  split
  · exact end_frame c s b badRequest
  · next url _ =>
      split
      · simp only
        exact end_frame (c.extract url.hostname (urlPort url)) s b badGateway
      · rfl

/-- What is done with a head depends neither on the stage nor on what came behind it. -/
theorem handleHead_frame (c : Conn Node) (s : Stage Node) (b : Bytes) (head : Text) :
    server.handleHead ((c.setStage s).setBehind b) head =
      (server.handleHead c head).setBehind b := by
  unfold handleHead
  rcases hr : requestLine (split head crlf) with ⟨method, target⟩
  simp only [hr]
  by_cases hm : method = "CONNECT".toList
  · rw [if_pos hm, if_pos hm]
    cases target with
    | none => rfl
    | some target => exact handleConnect_frame c s b target
  · rw [if_neg hm, if_neg hm]
    cases target with
    | none => exact end_frame c s b badRequest
    | some target =>
        by_cases ha : (startsWith target "http://".toList ||
            startsWith target "https://".toList) = true
        · simp only [if_pos ha]
          exact handleAbsolute_frame c s b method target _
        · simp only [if_neg ha]
          exact end_frame c s b badRequest

theorem handleHead_setStage (c : Conn Node) (s : Stage Node) (head : Text) :
    server.handleHead (c.setStage s) head = server.handleHead c head :=
  (handleHead_frame c s c.behind head).trans (handleHead_frame c c.stage c.behind head).symm

theorem handleHead_deaf (c : Conn Node) (head : Text) :
    Deaf (server.handleHead c head).stage := by
  unfold handleHead
  rcases hr : requestLine (split head crlf) with ⟨method, target⟩
  simp only [hr]
  have hconnect : ∀ target, Deaf (server.handleConnect c target).stage := by
    intro target
    unfold handleConnect
    split
    · trivial
    · split <;> trivial
  have habsolute : ∀ target,
      Deaf (server.handleAbsolute c method target (split head crlf)).stage := by
    intro target
    unfold handleAbsolute
    split
    · trivial
    · split <;> trivial
  split
  · split
    · exact hconnect _
    · trivial
  · split
    · split
      · exact habsolute _
      · trivial
    · trivial

theorem readHttpHead_incomplete (c : Conn Node) {buffer : Bytes} (h : ¬ headEnd <:+: buffer) :
    server.readHttpHead c buffer = c.setStage (.head buffer) := by
  have hi : Bytes.indexOf headEnd buffer = none :=
    (Bytes.indexOf_eq_none (List.cons_ne_nil _ _)).mpr h
  rw [readHttpHead, hi]

theorem readHttpHead_complete {c : Conn Node} (hc : c.stage ≠ .relaying) (h : HttpHead)
    (rest : Bytes) :
    server.readHttpHead c (h.encode ++ rest) = (server.handleHead c h.text).setBehind rest := by
  have hi : Bytes.indexOf headEnd (h.encode ++ rest) = some h.bytes.length :=
    Bytes.indexOf_append (List.cons_ne_nil _ _) h.unended
  have hd : (h.encode ++ rest).drop (h.bytes.length + 4) = rest :=
    List.drop_left' (by simp [HttpHead.encode, headEnd])
  have ht : (h.encode ++ rest).take h.bytes.length = h.bytes := by
    rw [HttpHead.encode, List.append_assoc, List.take_left]
  have hu : c.unshift rest = c := by
    unfold Conn.unshift
    split
    · next hs => exact absurd hs hc
    · rfl
  rw [readHttpHead, hi]
  simp only [hd, ht, hu]
  exact handleHead_frame c c.stage rest h.text

/-- A part of the stream that holds the end of the head holds the whole head. -/
theorem encode_prefix {h : HttpHead} {b more : Bytes} (hb : b <+: h.encode ++ more)
    (hi : headEnd <:+: b) : h.encode <+: b := by
  rcases List.prefix_or_prefix_of_prefix hb (List.prefix_append h.encode more) with hp | hp
  · by_cases heq : b = h.encode
    · rw [heq]
    · have hdl : b <+: h.encode.dropLast := by
        obtain ⟨t, ht⟩ := hp
        have hne : t ≠ [] := fun h0 => heq (by rw [← ht, h0, List.append_nil])
        rw [← ht, List.dropLast_append_of_ne_nil hne]
        exact List.prefix_append _ _
      exact absurd (hi.trans hdl.isInfix) h.unended
  · exact hp

/-- A head is handled the same way however it is cut, and the bytes behind it stay behind.
The induction is on the chunks to come, over what has been buffered without an end. -/
theorem runFrom_head (h : HttpHead) {more : Bytes} (chunks : List Bytes) {buffer : Bytes}
    (hn : ¬ headEnd <:+: buffer) (hf : buffer ++ chunks.flatten = h.encode ++ more) :
    server.runFrom (Conn.setStage {} (.head buffer)) (chunks.map .data) =
      (server.handleHead {} h.text).setBehind more := by
  induction chunks generalizing buffer with
  | nil =>
      rw [List.flatten_nil, List.append_nil] at hf
      have hi : headEnd <:+: h.encode ++ more := ⟨h.bytes, more, by simp [HttpHead.encode]⟩
      exact absurd (hf ▸ hi) hn
  | cons chunk rest ih =>
      rw [List.flatten_cons, ← List.append_assoc] at hf
      change server.runFrom
        (server.readHttpHead (Conn.setStage {} (.head buffer)) (buffer ++ chunk))
        (rest.map .data) = _
      by_cases hi : headEnd <:+: buffer ++ chunk
      · obtain ⟨tail, ht⟩ := encode_prefix ⟨rest.flatten, hf⟩ hi
        rw [← ht, List.append_assoc, List.append_cancel_left_eq] at hf
        rw [← ht, readHttpHead_complete (by simp [Conn.setStage]) h tail,
          handleHead_setStage, runFrom_deaf]
        · rw [← hf]
          rfl
        · exact handleHead_deaf _ _
      · rw [readHttpHead_incomplete _ hi]
        exact ih hi hf

theorem run_head (h : HttpHead) {more : Bytes} {chunks : List Bytes}
    (hne : ∀ c ∈ chunks, c ≠ []) (hf : chunks.flatten = h.encode ++ more) :
    server.run (chunks.map .data) = (server.handleHead {} h.text).setBehind more := by
  cases chunks with
  | nil =>
      rw [List.flatten_nil, HttpHead.encode, headEnd] at hf
      simp at hf
  | cons chunk rest =>
      have hfirst : chunk.head? ≠ some 0x05 := by
        obtain ⟨b, tail, hb⟩ := List.exists_cons_of_ne_nil (hne chunk (by simp))
        have hh := congrArg List.head? hf
        rw [hb] at hh ⊢
        rw [List.flatten_cons, List.cons_append, List.head?_cons] at hh
        rw [List.head?_cons, hh, HttpHead.encode]
        cases hbytes : h.bytes with
        | nil => simp [headEnd]
        | cons a t =>
            have := h.head?_ne
            rw [hbytes] at this
            exact this
      have hstart : server.data {} chunk = server.data (Conn.setStage {} (.head [])) chunk := by
        change server.handle {} chunk =
          server.readHttpHead (Conn.setStage {} (.head [])) ([] ++ chunk)
        rw [handle, if_neg hfirst, List.nil_append]
        by_cases hi : headEnd <:+: chunk
        · obtain ⟨tail, ht⟩ := encode_prefix ⟨rest.flatten, hf⟩ hi
          rw [← ht, readHttpHead_complete (by simp) h tail,
            readHttpHead_complete (by simp [Conn.setStage]) h tail, handleHead_setStage]
        · rw [readHttpHead_incomplete _ hi, readHttpHead_incomplete _ hi]
          rfl
      change server.runFrom (server.data {} chunk) (rest.map .data) = _
      rw [hstart]
      exact runFrom_head h (chunk :: rest) (show ¬ headEnd <:+: [] by simp [headEnd]) hf

end DshClashProxy.Core.Inbound
