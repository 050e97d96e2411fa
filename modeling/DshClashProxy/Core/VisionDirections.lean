import DshClashProxy.Core.VisionFrames

/-!
# The two directions of a Vision connection

A write that turns to direct replaces the embedded connection, from which the reads still
take. As long as no write does so before the peer has gone direct, every earlier read takes
from the inner connection, and the reads return what they return without any write.
-/
namespace DshClashProxy.Core.VisionDirections

open Js Vision
open VisionFrames (Frame sample roomy roomy_large atAhead loop_content loop_header loop_nil)

inductive Event where
  | read (t : Target)
  | write (i : Input)

/-- An event with the state before it. -/
structure Moment where
  before : VisionConn
  network : Network
  event : Event

/-- The connection after a write; a write that panics leaves it alone. -/
def written (c : VisionConn) (i : Input) : VisionConn :=
  match c.write i with
  | some (c, _) => c
  | none => c

/-- The events of a run, each with the state before it. -/
def moments (c : VisionConn) (n : Network) : List Event → List Moment
  | [] => []
  | .read t :: rest =>
      ⟨c, n, .read t⟩ :: moments (c.read n t).after (c.read n t).network rest
  | .write i :: rest => ⟨c, n, .write i⟩ :: moments (written c i) n rest

/-- What the reads of a run came to. -/
def outcomes (ms : List Moment) : List Outcome :=
  ms.filterMap fun m => match m.event with
    | .read t => some (m.before.read m.network t)
    | .write _ => none

def Event.isRead : Event → Bool
  | .read _ => true
  | .write _ => false

/-- The write turns to direct, and what it then writes to the embedded connection goes
through. -/
def splices (c : VisionConn) (i : Input) : Bool :=
  match (if 0 < c.numberOfPacketToFilter then c.filterTLS i.p else some c) with
  | none => false
  | some c =>
      let (buffers, specIndex, c') := c.padAll i.random 0 (reshapeBuffer i.p.bytes)
      c.isPadding && c'.directWrite && i.passes (buffers.take (specIndex + 1))

/-- A read of the embedded connection on which the state of the filter has no effect: raw
bytes go to a large buffer and do not start a stream, and no content overruns. -/
structure Steady (pull : Pull) : Prop where
  raw : pull.before.withinPaddingBuffers = false →
    pull.before.announced pull.buffer.bytes = false ∧ xrayChunkSize < pull.target.p.length
  fits : ∀ s ∈ (pull.before.unPadding pull.buffer).1, ¬ Overruns s

/-- A write turns to direct before the peer has. -/
def Moment.early (m : Moment) : Bool :=
  match m.event with
  | .read _ => false
  | .write i => !m.before.directRead && splices m.before i

/-- Every read of the embedded connection takes from the inner one. -/
def ReadsInner (c : VisionConn) (n : Network) (events : List Event) : Prop :=
  ∀ o ∈ outcomes (moments c n events), ∀ pull ∈ o.pulls, pull.before.conn = .inner

/-- The reads return what they return without the writes. -/
def Unaffected (c : VisionConn) (n : Network) (events : List Event) : Prop :=
  (outcomes (moments c n events)).map Outcome.result =
    (outcomes (moments c n (events.filter Event.isRead))).map Outcome.result

/-! ## Writes leave the reader alone -/

theorem padAll_same (c : VisionConn) (random : Nat → Nat) (i : Nat) (buffers : List Bytes) :
    SameReader c (c.padAll random i buffers).2.2 := by
  induction buffers generalizing c i with
  | nil => exact ⟨rfl, rfl⟩
  | cons buffer rest ih =>
      unfold VisionConn.padAll
      split
      · split <;> exact ⟨rfl, rfl⟩
      · split
        · exact ⟨rfl, rfl⟩
        · exact ih (c.padding buffer commandPaddingContinue (random i)).2 (i + 1)

/-- A write changes the embedded connection only by turning to direct. -/
theorem written_same (c : VisionConn) (i : Input) :
    (written c i).reader = c.reader ∧
      ((written c i).conn = c.conn ∨ splices c i = true) := by
  unfold written VisionConn.write splices
  have hfilter : ∀ d, (if 0 < c.numberOfPacketToFilter then c.filterTLS i.p else some c) = some d →
      SameReader c d := by
    intro d hd
    split at hd
    · exact filterTLS_same hd
    · obtain rfl := Option.some.inj hd
      exact ⟨rfl, rfl⟩
  cases hf : (if 0 < c.numberOfPacketToFilter then c.filterTLS i.p else some c) with
  | none => exact ⟨rfl, Or.inl rfl⟩
  | some d =>
      obtain ⟨hreader, hconn⟩ := hfilter d hf
      have hpad := padAll_same d i.random 0 (reshapeBuffer i.p.bytes)
      rcases hp : d.padAll i.random 0 (reshapeBuffer i.p.bytes) with ⟨buffers, specIndex, e⟩
      rw [hp] at hpad
      have hreader' : e.reader = c.reader := hpad.1.trans hreader
      have hconn' : e.conn = c.conn := hpad.2.trans hconn
      by_cases hpadding : d.isPadding = true
      · by_cases hdirect : e.directWrite = true
        · by_cases hpass : i.passes (buffers.take (specIndex + 1)) = true
          · simp only [hp, hpadding, hdirect, hpass, if_true, Bool.and_self]
            exact ⟨hreader', Or.inr trivial⟩
          · simp only [hp, hpadding, hdirect, hpass, if_true]
            exact ⟨hreader', Or.inl hconn'⟩
        · simp only [hp, hpadding, hdirect, if_true]
          exact ⟨hreader', Or.inl hconn'⟩
      · simp only [hpadding]
        exact ⟨hreader, Or.inl hconn⟩

/-! ## What reading depends on -/

/-- The reader without its multi-reader. -/
def core (c : VisionConn) : Reader := { c.reader with remainingReader := none }

theorem core_same {c c' : VisionConn} (h : c'.reader = c.reader) : core c' = core c :=
  congrArg (fun r : Reader => { r with remainingReader := none }) h

/-- The parts of the multi-reader that have bytes left. -/
def live (parts : Option (List Bytes)) : List Bytes := (parts.getD []).filter (· ≠ [])

/-- The counters of a frame are both in use or both not. -/
def Counting (content padding : Int) : Prop :=
  content = -1 ∧ padding = -1 ∨ 0 ≤ content ∧ 0 ≤ padding

/-- The loop sees the counters and the command alone, and changes nothing else. -/
theorem unPaddingLoop_uniform (content padding : Int) (command : UInt8) (behind b : Bytes) :
    ∃ buffers content' padding' command',
      (0 ≤ content ∧ 0 ≤ padding → 0 ≤ content' ∧ 0 ≤ padding') ∧
      ∀ c : VisionConn, c.remainingContent = content → c.remainingPadding = padding →
        c.currentCommand = command → c.unPaddingLoop behind b =
          (buffers, { c with remainingContent := content', remainingPadding := padding',
                             currentCommand := command' }) := by
  induction hn : b.length using Nat.strong_induction_on generalizing content padding command b with
  | _ n ih =>
      by_cases hnil : b = []
      · refine ⟨[], content, padding, command, id, fun c h1 h2 h3 => ?_⟩
        rw [VisionConn.unPaddingLoop, if_pos hnil, ← h1, ← h2, ← h3]
      have hpos := List.length_pos_iff.mpr hnil
      by_cases hz : content ≤ 0 ∧ padding ≤ 0
      · by_cases hend : command = commandPaddingEnd
        · refine ⟨[⟨b, behind⟩], content, padding, command, id, fun c h1 h2 h3 => ?_⟩
          rw [VisionConn.unPaddingLoop, if_neg hnil, if_pos (by rw [h1, h2]; exact hz),
            if_pos (by rw [h3]; exact hend), ← h1, ← h2, ← h3]
        by_cases hfive : b.length < 5
        · refine ⟨[], content, padding, command, id, fun c h1 h2 h3 => ?_⟩
          rw [VisionConn.unPaddingLoop, if_neg hnil, if_pos (by rw [h1, h2]; exact hz),
            if_neg (by rw [h3]; exact hend), if_pos hfive, ← h1, ← h2, ← h3]
        obtain ⟨buffers, content', padding', command', hcount, hloop⟩ :=
          ih (b.drop 5).length (by rw [List.length_drop]; omega)
            ↑(byteAt b 1 * 256 + byteAt b 2) ↑(byteAt b 3 * 256 + byteAt b 4) (b.getD 0 0)
            (b.drop 5) rfl
        refine ⟨buffers, content', padding', command', fun _ => hcount ⟨by omega, by omega⟩,
          fun c h1 h2 h3 => ?_⟩
        rw [VisionConn.unPaddingLoop, if_neg hnil, if_pos (by rw [h1, h2]; exact hz),
          if_neg (by rw [h3]; exact hend), if_neg hfive, hloop _ rfl rfl rfl]
      · by_cases hcontent : 0 < content
        · obtain ⟨buffers, content', padding', command', hcount, hloop⟩ :=
            ih (b.drop (min content.toNat b.length)).length (by rw [List.length_drop]; omega)
              (content - (min content.toNat b.length : Nat)) padding command _ rfl
          refine ⟨⟨b.take (min content.toNat b.length),
            b.drop (min content.toNat b.length) ++ behind⟩ :: buffers, content', padding',
            command', fun h => hcount ⟨by omega, h.2⟩, fun c h1 h2 h3 => ?_⟩
          rw [VisionConn.unPaddingLoop, if_neg hnil, if_neg (by rw [h1, h2]; exact hz),
            if_pos (by rw [h1]; exact hcontent)]
          have hl := hloop { c with
            remainingContent := content - (min content.toNat b.length : Nat) } rfl h2 h3
          simp only [h1, hl]
        · obtain ⟨buffers, content', padding', command', hcount, hloop⟩ :=
            ih (b.drop (min padding.toNat b.length)).length (by rw [List.length_drop]; omega)
              content (padding - (min padding.toNat b.length : Nat)) command _ rfl
          refine ⟨buffers, content', padding', command', fun h => hcount ⟨h.1, by omega⟩,
            fun c h1 h2 h3 => ?_⟩
          rw [VisionConn.unPaddingLoop, if_neg hnil, if_neg (by rw [h1, h2]; exact hz),
            if_neg (by rw [h1]; exact hcontent)]
          have hl := hloop { c with
            remainingPadding := padding - (min padding.toNat b.length : Nat) } h1 rfl h3
          simp only [h2, hl]

/-- Unpadding sees the core of the reader alone, and changes its counters and its command. -/
theorem unPadding_uniform (r : Reader) (h : Counting r.remainingContent r.remainingPadding)
    (buffer : Slice) :
    ∃ buffers content' padding' command', Counting content' padding' ∧
      ∀ c : VisionConn, core c = r → c.unPadding buffer =
        (buffers, { c with remainingContent := content', remainingPadding := padding',
                           currentCommand := command' }) := by
  by_cases hframeless : r.remainingContent = -1 ∧ r.remainingPadding = -1
  · by_cases hannounced : 21 ≤ buffer.bytes.length ∧ buffer.bytes.take 16 = r.userUUID.val
    · obtain ⟨buffers, content', padding', command', hcount, hloop⟩ :=
        unPaddingLoop_uniform 0 0 0 buffer.behind (buffer.bytes.drop 16)
      refine ⟨buffers, content', padding', command',
        Or.inr (hcount ⟨Int.le_refl 0, Int.le_refl 0⟩), fun c hc => ?_⟩
      subst hc
      have hrc : c.remainingContent = -1 := hframeless.1
      have hrp : c.remainingPadding = -1 := hframeless.2
      have hu : buffer.bytes.take 16 = c.userUUID.val := hannounced.2
      have ha : c.announced buffer.bytes = true := by
        simp [VisionConn.announced, VisionConn.frameless, hrc, hrp, hannounced.1, hu]
      rw [VisionConn.unPadding, if_pos ha, hloop _ rfl rfl rfl]
    · refine ⟨[buffer], r.remainingContent, r.remainingPadding, r.currentCommand, h,
        fun c hc => ?_⟩
      subst hc
      have hrc : c.remainingContent = -1 := hframeless.1
      have hrp : c.remainingPadding = -1 := hframeless.2
      have ha : ¬ c.announced buffer.bytes = true := by
        intro ha
        simp only [VisionConn.announced, Bool.and_eq_true, decide_eq_true_eq] at ha
        exact hannounced ⟨ha.1.2, ha.2⟩
      have hf : c.frameless = true := by simp [VisionConn.frameless, hrc, hrp]
      rw [VisionConn.unPadding, if_neg ha, if_pos hf]
      rfl
  · have hcounting := h.resolve_left hframeless
    obtain ⟨buffers, content', padding', command', hcount, hloop⟩ :=
      unPaddingLoop_uniform r.remainingContent r.remainingPadding r.currentCommand buffer.behind
        buffer.bytes
    refine ⟨buffers, content', padding', command', Or.inr (hcount hcounting), fun c hc => ?_⟩
    subst hc
    have hf : c.frameless = false := by
      have : 0 ≤ c.remainingContent := hcounting.1
      simp only [VisionConn.frameless, Bool.and_eq_false_iff, decide_eq_false_iff_not]
      left
      omega
    have ha : ¬ c.announced buffer.bytes = true := by simp [VisionConn.announced, hf]
    rw [VisionConn.unPadding, if_neg ha, hf, if_neg (by decide), hloop c rfl rfl rfl]

/-- What `io.ReadAll` returns has room for any session id. -/
theorem readAll_fits {b : Bytes} {s : Slice} (h : s ∈ readAll b) : ¬ Overruns s := by
  unfold readAll at h
  split at h
  · cases h
  · obtain rfl := List.mem_singleton.mp h
    intro hover
    have hlen := hover.2.2.2.2
    have hbyte : byteAt b 43 < 256 := (b.getD 43 0).toNat_lt
    simp only [List.length_append, List.length_replicate] at hlen
    omega

/-- A reader between two reads: the counters are both in use or both not, and they are not
outside the frames. -/
structure Framed (r : Reader) : Prop where
  counting : Counting r.remainingContent r.remainingPadding
  outside : r.withinPaddingBuffers = false → r.directRead = false →
    r.remainingContent = -1 ∧ r.remainingPadding = -1

/-- Two connections at the same point of the peer's stream: they differ in the filter and in
what writing turns on. -/
structure Coupled (c d : VisionConn) : Prop where
  reader : core c = core d
  parts : live c.remainingReader = live d.remainingReader
  framed : Framed (core c)
  conn : c.directRead = false → c.conn = .inner ∧ d.conn = .inner

/-- `settle` on the core. -/
def settleCore (r : Reader) (buffers : List Slice) : Option (List Slice) × Reader :=
  if r.remainingContent = 0 ∧ r.remainingPadding = 0 then
    if r.currentCommand = commandPaddingEnd then
      (some buffers, { r with
        withinPaddingBuffers := false, remainingContent := -1, remainingPadding := -1 })
    else if r.currentCommand = commandPaddingDirect then
      (some (buffers ++ readAll r.input ++ readAll r.rawIn), { r with
        withinPaddingBuffers := false, directRead := true, input := [], rawIn := [] })
    else if r.currentCommand = commandPaddingContinue then
      (some buffers, { r with withinPaddingBuffers := true })
    else (none, r)
  else if 0 < r.remainingContent ∨ 0 < r.remainingPadding then
    (some buffers, { r with withinPaddingBuffers := true })
  else (some buffers, { r with withinPaddingBuffers := false })

theorem settle_core (c : VisionConn) (buffers : List Slice) :
    (c.settle buffers).1 = (settleCore (core c) buffers).1 ∧
      core (c.settle buffers).2 = (settleCore (core c) buffers).2 ∧
      (c.settle buffers).2.conn = c.conn ∧
      (c.settle buffers).2.remainingReader = c.remainingReader := by
  have hcontent : (core c).remainingContent = c.remainingContent := rfl
  have hpadding : (core c).remainingPadding = c.remainingPadding := rfl
  have hcommand : (core c).currentCommand = c.currentCommand := rfl
  rw [VisionConn.settle, settleCore, hcontent, hpadding, hcommand]
  split_ifs
  all_goals exact ⟨rfl, rfl, rfl, rfl⟩

theorem framed_settleCore {r : Reader} (h : Counting r.remainingContent r.remainingPadding)
    (hw : r.withinPaddingBuffers = true) (buffers : List Slice) :
    Framed (settleCore r buffers).2 := by
  rw [settleCore]
  split_ifs with hz hend hdirect hcontinue hmore
  · exact ⟨Or.inl ⟨rfl, rfl⟩, fun _ _ => ⟨rfl, rfl⟩⟩
  · exact ⟨h, fun _ hd => Bool.noConfusion hd⟩
  · exact ⟨h, fun hw' => Bool.noConfusion hw'⟩
  · exact ⟨h, fun hw' => Bool.noConfusion (hw.symm.trans hw')⟩
  · exact ⟨h, fun hw' => Bool.noConfusion hw'⟩
  · exact ⟨h, fun _ _ => h.resolve_right fun hn => by omega⟩

/-- What settling adds to the buffers comes from `io.ReadAll`. -/
theorem mem_settleCore {r : Reader} {buffers bs : List Slice}
    (h : (settleCore r buffers).1 = some bs) : ∀ s ∈ bs, s ∈ buffers ∨ ¬ Overruns s := by
  intro s hs
  have hsame : some buffers = some bs → s ∈ buffers ∨ ¬ Overruns s := by
    intro he
    rw [Option.some.inj he]
    exact Or.inl hs
  rw [settleCore] at h
  split_ifs at h with hz hend hdirect hcontinue hmore
  · exact hsame h
  · rw [← Option.some.inj h, List.mem_append, List.mem_append] at hs
    rcases hs with (hs | hs) | hs
    · exact Or.inl hs
    · exact Or.inr (readAll_fits hs)
    · exact Or.inr (readAll_fits hs)
  · exact hsame h
  · exact hsame h
  · exact hsame h

/-- What the flags are settled to depends on the core alone. -/
theorem settle_uniform (r : Reader) (h : Counting r.remainingContent r.remainingPadding)
    (hw : r.withinPaddingBuffers = true) (buffers : List Slice) :
    ∃ (settled : Option (List Slice)) (r' : Reader), Framed r' ∧
      (∀ bs, settled = some bs → ∀ s ∈ bs, s ∈ buffers ∨ ¬ Overruns s) ∧
      ∀ c : VisionConn, core c = r → ∃ c', c.settle buffers = (settled, c') ∧ core c' = r' ∧
        c'.conn = c.conn ∧ c'.remainingReader = c.remainingReader := by
  refine ⟨(settleCore r buffers).1, (settleCore r buffers).2, framed_settleCore h hw buffers,
    fun bs hbs => mem_settleCore hbs, fun c hc => ?_⟩
  subst hc
  obtain ⟨hsettled, hcore, hconn, hreader⟩ := settle_core c buffers
  exact ⟨(c.settle buffers).2, Prod.ext hsettled rfl, hcore, hconn, hreader⟩

/-- The direction of reading is never turned back, and reading leaves the embedded connection
alone. -/
structure Forward (c c' : VisionConn) : Prop where
  conn : c'.conn = c.conn
  direct : c'.directRead = false → c.directRead = false

theorem Forward.refl (c : VisionConn) : Forward c c := ⟨rfl, id⟩

theorem Forward.trans {c c' c'' : VisionConn} (h : Forward c c') (h' : Forward c' c'') :
    Forward c c'' :=
  ⟨h'.conn.trans h.conn, fun hd => h.direct (h'.direct hd)⟩

theorem unPadding_forward (c : VisionConn) (buffer : Slice) :
    Forward c (c.unPadding buffer).2 := by
  unfold VisionConn.unPadding
  split
  · obtain ⟨buffers, content', padding', command', _, hloop⟩ :=
      unPaddingLoop_uniform 0 0 0 buffer.behind (buffer.bytes.drop 16)
    rw [hloop _ rfl rfl rfl]
    exact ⟨rfl, id⟩
  · split
    · exact Forward.refl c
    · obtain ⟨buffers, content', padding', command', _, hloop⟩ :=
        unPaddingLoop_uniform c.remainingContent c.remainingPadding c.currentCommand buffer.behind
          buffer.bytes
      rw [hloop c rfl rfl rfl]
      exact ⟨rfl, id⟩

theorem settle_forward (c : VisionConn) (buffers : List Slice) :
    Forward c (c.settle buffers).2 := by
  unfold VisionConn.settle
  split_ifs
  case pos => exact ⟨rfl, id⟩
  case pos => exact ⟨rfl, fun hd => Bool.noConfusion hd⟩
  all_goals exact ⟨rfl, id⟩

theorem feed_forward (c : VisionConn) (buffer : Slice) : Forward c (c.feed buffer).2 := by
  have hunpad := unPadding_forward c buffer
  unfold VisionConn.feed
  rcases hu : c.unPadding buffer with ⟨buffers, c1⟩
  rw [hu] at hunpad
  have hsettle := settle_forward c1 buffers
  rcases hs : c1.settle buffers with ⟨_ | bs, c2⟩
  · simp only [hs] at hsettle ⊢
    exact hunpad.trans hsettle
  · simp only [hs] at hsettle ⊢
    cases hf : c2.filterAll bs with
    | none =>
        show Forward c c2
        exact hunpad.trans hsettle
    | some c3 =>
        obtain ⟨hreader, hconn⟩ := filterAll_same hf
        have hfilter : Forward c2 c3 :=
          ⟨hconn, fun hd => (congrArg Reader.directRead hreader).symm.trans hd⟩
        have hall := (hunpad.trans hsettle).trans hfilter
        exact ⟨hall.conn, hall.direct⟩

theorem counting_settleCore {r : Reader} (h : Counting r.remainingContent r.remainingPadding)
    (buffers : List Slice) : Counting (settleCore r buffers).2.remainingContent
      (settleCore r buffers).2.remainingPadding := by
  rw [settleCore]
  split_ifs
  case pos => exact Or.inl ⟨rfl, rfl⟩
  all_goals exact h

/-- Reading keeps the counters both in use or both not. -/
theorem feed_counting {c : VisionConn} (h : Counting c.remainingContent c.remainingPadding)
    (buffer : Slice) :
    Counting (c.feed buffer).2.remainingContent (c.feed buffer).2.remainingPadding := by
  obtain ⟨buffers, content', padding', command', hcount, hunpad⟩ :=
    unPadding_uniform (core c) h buffer
  have hstate : ∀ c1 : VisionConn, Counting c1.remainingContent c1.remainingPadding →
      Counting (c1.settle buffers).2.remainingContent
        (c1.settle buffers).2.remainingPadding := by
    intro c1 h1
    have hcore := (settle_core c1 buffers).2.1
    change Counting (core (c1.settle buffers).2).remainingContent
      (core (c1.settle buffers).2).remainingPadding
    rw [hcore]
    exact counting_settleCore h1 buffers
  have hsettled := hstate { c with
    remainingContent := content', remainingPadding := padding',
    currentCommand := command' } hcount
  rw [VisionConn.feed, hunpad c rfl]
  rcases hs : VisionConn.settle { c with
    remainingContent := content', remainingPadding := padding',
    currentCommand := command' } buffers with ⟨_ | bs, c2⟩
  · simp only [hs] at hsettled ⊢
    exact hsettled
  · simp only [hs] at hsettled ⊢
    cases hf : c2.filterAll bs with
    | none => exact hsettled
    | some c3 =>
        have hsame := (filterAll_same hf).1
        change Counting c3.reader.remainingContent c3.reader.remainingPadding
        rw [hsame]
        exact hsettled

theorem drain_forward (c : VisionConn) (size : Nat) : Forward c (c.drain size).2 := by
  unfold VisionConn.drain
  split
  · exact Forward.refl c
  · split
    · exact ⟨rfl, id⟩
    · split <;> exact ⟨rfl, id⟩

/-- What feeding a buffer within the frames does is the same on both connections, if its
content does not overrun. -/
theorem feed_coupled {c d : VisionConn} (h : Coupled c d) (hw : c.withinPaddingBuffers = true)
    {buffer : Slice} (hfits : ∀ s ∈ (c.unPadding buffer).1, ¬ Overruns s) :
    ∃ result c' d', c.feed buffer = (result, c') ∧ d.feed buffer = (result, d') ∧
      Coupled c' d' := by
  obtain ⟨buffers, content', padding', command', hcount, hunpad⟩ :=
    unPadding_uniform (core c) h.framed.counting buffer
  obtain ⟨settled, r', hframed, hmem, hsettle⟩ := settle_uniform
    { core c with remainingContent := content', remainingPadding := padding',
                  currentCommand := command' } hcount hw buffers
  have hcu := hunpad c rfl
  have hdu := hunpad d h.reader.symm
  obtain ⟨c', hcs, hcr, hcc, hcp⟩ := hsettle
    { c with remainingContent := content', remainingPadding := padding',
             currentCommand := command' } rfl
  obtain ⟨d', hds, hdr, hdc, hdp⟩ := hsettle
    { d with remainingContent := content', remainingPadding := padding',
             currentCommand := command' }
    (congrArg (fun r : Reader => { r with
      remainingContent := content', remainingPadding := padding',
      currentCommand := command' }) h.reader.symm)
  rw [hcu] at hfits
  cases settled with
  | none =>
      have hcf : c.feed buffer = (some (.unknownCommand c'.currentCommand), c') := by
        simp only [VisionConn.feed, hcu, hcs]
      have hdf : d.feed buffer = (some (.unknownCommand d'.currentCommand), d') := by
        simp only [VisionConn.feed, hdu, hds]
      have hcommand : c'.currentCommand = d'.currentCommand :=
        congrArg Reader.currentCommand (hcr.trans hdr.symm)
      have hforward := feed_forward c buffer
      rw [hcf] at hforward
      refine ⟨_, c', d', hcf, by rw [hdf, hcommand], hcr.trans hdr.symm, ?_, hcr ▸ hframed,
        fun hd => ?_⟩
      · rw [hcp, hdp]
        exact h.parts
      · rw [hcc, hdc]
        exact h.conn (hforward.direct hd)
  | some bs =>
      have hover : ∀ s ∈ bs, ¬ Overruns s := fun s hs => (hmem bs rfl s hs).elim (hfits s) id
      obtain ⟨c'', hcfilter⟩ := filterAll_isSome c' bs fun _ => hover
      obtain ⟨d'', hdfilter⟩ := filterAll_isSome d' bs fun _ => hover
      have hcf : c.feed buffer =
          (none, { c'' with remainingReader := some (bs.map Slice.bytes) }) := by
        simp only [VisionConn.feed, hcu, hcs, hcfilter]
      have hdf : d.feed buffer =
          (none, { d'' with remainingReader := some (bs.map Slice.bytes) }) := by
        simp only [VisionConn.feed, hdu, hds, hdfilter]
      obtain ⟨hcsame, hcconn⟩ := filterAll_same hcfilter
      obtain ⟨hdsame, hdconn⟩ := filterAll_same hdfilter
      have hcore : core c'' = r' := (core_same hcsame).trans hcr
      have hdcore : core d'' = r' := (core_same hdsame).trans hdr
      have hforward := feed_forward c buffer
      rw [hcf] at hforward
      refine ⟨none, _, _, hcf, hdf, hcore.trans hdcore.symm, rfl, ?_, fun hd => ?_⟩
      · rw [← hcore] at hframed
        exact hframed
      · obtain ⟨hc, hd⟩ := h.conn (hforward.direct hd)
        exact ⟨(hcconn.trans hcc).trans hc, (hdconn.trans hdc).trans hd⟩

theorem live_cons (part : Bytes) (rest : List Bytes) :
    live (some (part :: rest)) =
      if part = [] then live (some rest) else part :: live (some rest) := by
  by_cases hp : part = [] <;> simp [live, hp]

theorem live_live (parts : Option (List Bytes)) : live (some (live parts)) = live parts := by
  simp [live]

/-- The empty parts in front do not count. -/
theorem live_dropWhile (parts : List Bytes) :
    (live (some parts) = [] ∧ parts.dropWhile (· = []) = []) ∨
      ∃ part rest, part ≠ [] ∧ parts.dropWhile (· = []) = part :: rest ∧
        live (some parts) = part :: live (some rest) := by
  induction parts with
  | nil => exact Or.inl ⟨rfl, rfl⟩
  | cons part rest ih =>
      rw [live_cons]
      by_cases hp : part = []
      · rw [if_pos hp, List.dropWhile_cons_of_pos (by simpa using hp)]
        exact ih
      · rw [if_neg hp, List.dropWhile_cons_of_neg (by simpa using hp)]
        exact Or.inr ⟨part, rest, hp, rfl, rfl⟩

/-- What draining takes and leaves depends on the live parts alone. -/
theorem drain_uniform (parts : List Bytes) (size : Nat) :
    ∃ taken left, ∀ c : VisionConn, live c.remainingReader = parts → ∃ parts',
      c.drain size = (taken, { c with remainingReader := parts' }) ∧ live parts' = left := by
  cases parts with
  | nil =>
      refine ⟨none, [], fun c hc => ⟨none, ?_, rfl⟩⟩
      unfold VisionConn.drain
      cases hr : c.remainingReader with
      | none => exact congrArg (Prod.mk none) (by rw [← hr])
      | some parts =>
          rw [hr] at hc
          rcases live_dropWhile parts with ⟨_, hd⟩ | ⟨part, rest, _, _, hl⟩
          · simp only [hd]
          · rw [hl] at hc
            cases hc
  | cons part rest =>
      refine ⟨if size = 0 then none else some (part.take size),
        live (some (part.drop size :: rest)), fun c hc => ?_⟩
      unfold VisionConn.drain
      cases hr : c.remainingReader with
      | none =>
          rw [hr] at hc
          cases hc
      | some parts =>
          rw [hr] at hc
          rcases live_dropWhile parts with ⟨hl, _⟩ | ⟨front, behind, hne, hd, hl⟩
          · rw [hl] at hc
            cases hc
          · obtain ⟨rfl, rfl⟩ := List.cons.inj (hl.symm.trans hc)
            simp only [hd]
            by_cases hs : size = 0
            · subst hs
              refine ⟨some (front :: behind), by simp, ?_⟩
              rw [List.drop_zero, live_cons, live_cons, live_live]
            · refine ⟨some (front.drop size :: behind), by simp [hs], ?_⟩
              rw [live_cons, live_cons, live_live]

/-- Draining takes the same from both connections. -/
theorem drain_coupled {c d : VisionConn} (h : Coupled c d) (size : Nat) :
    ∃ taken c' d', c.drain size = (taken, c') ∧ d.drain size = (taken, d') ∧ Coupled c' d' := by
  obtain ⟨taken, left, huniform⟩ := drain_uniform (live c.remainingReader) size
  obtain ⟨cparts, hcd, hcl⟩ := huniform c rfl
  obtain ⟨dparts, hdd, hdl⟩ := huniform d h.parts.symm
  exact ⟨taken, _, _, hcd, hdd, h.reader, hcl.trans hdl.symm, h.framed, h.conn⟩

theorem read_direct {c c1 : VisionConn} {t : Target} {n : Network}
    (hd : c.drain t.p.length = (none, c1)) (hdirect : c1.directRead = true) :
    c.read n t = match n.receive .raw t.p.length with
      | none => ⟨.eof, [], c1, n⟩
      | some (data, n') => ⟨.bytes data, [], c1, n'⟩ := by
  rw [VisionConn.read, hd]
  cases n.receive .raw t.p.length <;> simp only [hdirect, if_true]

/-- Raw bytes come as they are, whether they pass through the filter or not. -/
theorem read_raw {c c1 : VisionConn} {t : Target} {n n' : Network} {data : Bytes}
    (hd : c.drain t.p.length = (none, c1)) (hdirect : c1.directRead = false)
    (hr : n.receive c1.conn t.size = some (data, n')) (hw : c1.withinPaddingBuffers = false)
    (hframed : Framed (core c1)) (hs : Steady ⟨c1, t, t.slice data⟩) :
    ∃ pulls after, c.read n t = ⟨.bytes data, pulls, after, n'⟩ ∧ core after = core c1 ∧
      after.conn = c1.conn ∧ live after.remainingReader = [] := by
  obtain ⟨hannounced, hlarge⟩ := hs.raw hw
  have hlarge : xrayChunkSize < t.p.length := hlarge
  obtain ⟨hdata, hlen⟩ := Network.receive_fits t.size_pos hr
  have hlen' : data.length ≤ (t.fill data).p.length := by
    rw [Target.length_fill hlen]
    rwa [Target.size, if_pos hlarge] at hlen
  have hfill : t.fill data = { t with p := data ++ t.p.drop data.length } := if_pos hlarge
  have hslice : (t.slice data).bytes = data := by
    unfold Target.slice
    split <;> rfl
  have hempty : c1.remainingReader = none := by
    rcases drain_eq c (by omega : 0 < t.p.length) with ⟨he, _⟩ | ⟨b, parts, _, he, _⟩
    · rw [he] at hd
      rw [← (Prod.mk.inj hd).2]
    · rw [he] at hd
      cases (Prod.mk.inj hd).1
  by_cases hfed : c1.withinPaddingBuffers = true ∨ 0 < c1.numberOfPacketToFilter
  · obtain ⟨hcontent, hpadding⟩ := hframed.outside hw hdirect
    have hcontent : c1.remainingContent = -1 := hcontent
    have hpadding : c1.remainingPadding = -1 := hpadding
    have hunpad : c1.unPadding (t.slice data) = ([t.slice data], c1) := by
      have hframeless : c1.frameless = true := by simp [VisionConn.frameless, hcontent, hpadding]
      rw [VisionConn.unPadding, if_neg (by rw [hannounced]; decide), if_pos hframeless]
    have hsettle : c1.settle [t.slice data] = (some [t.slice data], c1) := by
      rw [VisionConn.settle, if_neg (by omega), if_neg (by omega), ← hw]
    have hfits := hs.fits
    rw [hunpad] at hfits
    obtain ⟨c2, hfilter⟩ := filterAll_isSome c1 [t.slice data] fun _ => hfits
    obtain ⟨hsame, hconn⟩ := filterAll_same hfilter
    have hf : c1.feed (t.slice data) = (none, { c2 with remainingReader := some [data] }) := by
      simp only [VisionConn.feed, hunpad, hsettle, hfilter, List.map_cons, List.map_nil, hslice]
    have hagain : ({ c2 with remainingReader := some [data] } : VisionConn).drain
        (t.fill data).p.length = (some data, { c2 with remainingReader := some [[]] }) := by
      have hpos := List.length_pos_iff.mpr hdata
      have hsize : ¬ (t.fill data).p.length = 0 := by omega
      simp only [VisionConn.drain]
      rw [List.dropWhile_cons_of_neg (by simpa using hdata)]
      simp only [if_neg hsize, List.take_of_length_le hlen', List.drop_of_length_le hlen']
    have hcore : core c2 = core c1 := core_same hsame
    refine ⟨[⟨c1, t, t.slice data⟩], { c2 with remainingReader := some [[]] }, ?_, hcore, hconn,
      rfl⟩
    rw [read_fed hd hdirect hr hfed hf, read_drained n' hagain]
  · refine ⟨[⟨c1, t, t.slice data⟩], c1, ?_, rfl, rfl, by rw [hempty]; rfl⟩
    rw [read_passed hd hdirect hr hfed, hfill]
    simp

/-! ## One read -/

/-- A read takes from the embedded connection that it found, and only before it goes direct. -/
structure Takes (c : VisionConn) (o : Outcome) : Prop where
  pulls : ∀ pull ∈ o.pulls, pull.before.conn = c.conn ∧ c.directRead = false
  after : Forward c o.after

theorem Takes.nothing {c : VisionConn} {o : Outcome} (hp : o.pulls = [])
    (h : Forward c o.after) : Takes c o := by
  refine ⟨fun pull hpull => ?_, h⟩
  rw [hp] at hpull
  cases hpull

theorem read_takes (c : VisionConn) (n : Network) (t : Target) : Takes c (c.read n t) := by
  induction hn : n.left using Nat.strong_induction_on generalizing c n t with
  | _ k ih =>
      subst hn
      have hdrain := drain_forward c t.p.length
      rcases hd : c.drain t.p.length with ⟨_ | b, c1⟩
      · rw [hd] at hdrain
        cases hdirect : c1.directRead with
        | true =>
            rw [read_direct hd hdirect]
            cases n.receive .raw t.p.length with
            | none => exact Takes.nothing rfl hdrain
            | some r => exact Takes.nothing rfl hdrain
        | false =>
            have hfirst : c1.conn = c.conn ∧ c.directRead = false :=
              ⟨hdrain.conn, hdrain.direct hdirect⟩
            rcases hr : n.receive c1.conn t.size with _ | ⟨data, n'⟩
            · rw [read_ended hd hdirect hr]
              exact Takes.nothing rfl hdrain
            by_cases hfed : c1.withinPaddingBuffers = true ∨ 0 < c1.numberOfPacketToFilter
            · have hfeed := feed_forward c1 (t.slice data)
              rcases hf : c1.feed (t.slice data) with ⟨_ | result, c2⟩
              · rw [hf] at hfeed
                have hc2 := hdrain.trans hfeed
                have hrest := ih n'.left (left_receive t.size_pos hr) c2 n' (t.fill data) rfl
                rw [read_fed hd hdirect hr hfed hf]
                refine ⟨fun pull hp => ?_, hc2.trans hrest.after⟩
                rcases List.mem_cons.mp hp with rfl | hp
                · exact hfirst
                · obtain ⟨hconn, hd2⟩ := hrest.pulls pull hp
                  exact ⟨hconn.trans hc2.conn, hc2.direct hd2⟩
              · rw [hf] at hfeed
                rw [read_failed hd hdirect hr hfed hf]
                refine ⟨fun pull hp => ?_, hdrain.trans hfeed⟩
                obtain rfl := List.mem_singleton.mp hp
                exact hfirst
            · rw [read_passed hd hdirect hr hfed]
              refine ⟨fun pull hp => ?_, hdrain⟩
              obtain rfl := List.mem_singleton.mp hp
              exact hfirst
      · rw [hd] at hdrain
        rw [read_drained n hd]
        exact Takes.nothing rfl hdrain

theorem steady_coupled {c d : VisionConn} {t : Target} {buffer : Slice} (h : Coupled c d)
    (hs : Steady ⟨c, t, buffer⟩) : Steady ⟨d, t, buffer⟩ := by
  obtain ⟨buffers, content', padding', command', _, hunpad⟩ :=
    unPadding_uniform (core c) h.framed.counting buffer
  refine ⟨fun hw => ?_, ?_⟩
  · have hwsame : c.withinPaddingBuffers = d.withinPaddingBuffers :=
      congrArg Reader.withinPaddingBuffers h.reader
    obtain ⟨hannounced, hlarge⟩ := hs.raw (hwsame.trans hw)
    refine ⟨?_, hlarge⟩
    have hcontent : d.remainingContent = c.remainingContent :=
      congrArg Reader.remainingContent h.reader.symm
    have hpadding : d.remainingPadding = c.remainingPadding :=
      congrArg Reader.remainingPadding h.reader.symm
    have huser : d.userUUID = c.userUUID := congrArg Reader.userUUID h.reader.symm
    simp only [VisionConn.announced, VisionConn.frameless] at hannounced ⊢
    rw [hcontent, hpadding, huser]
    exact hannounced
  · have hfits := hs.fits
    simp only [hunpad c rfl] at hfits
    simp only [hunpad d h.reader.symm]
    exact hfits

/-- The same read on both connections. -/
structure Agree (o o' : Outcome) : Prop where
  result : o.result = o'.result
  after : Coupled o.after o'.after
  network : o.network = o'.network

theorem read_coupled {c d : VisionConn} {n : Network} {t : Target} (h : Coupled c d)
    (hs : ∀ pull ∈ (c.read n t).pulls, Steady pull) : Agree (c.read n t) (d.read n t) := by
  induction hn : n.left using Nat.strong_induction_on generalizing c d n t with
  | _ k ih =>
      subst hn
      obtain ⟨taken, c1, d1, hcd, hdd, h1⟩ := drain_coupled h t.p.length
      cases taken with
      | some b =>
          rw [read_drained n hcd, read_drained n hdd]
          exact ⟨rfl, h1, rfl⟩
      | none =>
          have hsame : c1.directRead = d1.directRead := congrArg Reader.directRead h1.reader
          cases hdirect : c1.directRead with
          | true =>
              rw [read_direct hcd hdirect, read_direct hdd (hsame ▸ hdirect)]
              cases n.receive .raw t.p.length with
              | none => exact ⟨rfl, h1, rfl⟩
              | some r => exact ⟨rfl, h1, rfl⟩
          | false =>
              have hdirect' : d1.directRead = false := hsame ▸ hdirect
              obtain ⟨hcinner, hdinner⟩ := h1.conn hdirect
              rcases hr : n.receive c1.conn t.size with _ | ⟨data, n'⟩
              · have hr' : n.receive d1.conn t.size = none := by rw [hdinner, ← hcinner, hr]
                rw [read_ended hcd hdirect hr, read_ended hdd hdirect' hr']
                exact ⟨rfl, h1, rfl⟩
              have hr' : n.receive d1.conn t.size = some (data, n') := by
                rw [hdinner, ← hcinner, hr]
              have hsteady := hs _ (pull_mem hcd hdirect hr)
              have hwsame : c1.withinPaddingBuffers = d1.withinPaddingBuffers :=
                congrArg Reader.withinPaddingBuffers h1.reader
              cases hw : c1.withinPaddingBuffers with
              | true =>
                  have hw' : d1.withinPaddingBuffers = true := hwsame ▸ hw
                  obtain ⟨result, c2, d2, hcf, hdf, h2⟩ := feed_coupled h1 hw hsteady.fits
                  cases result with
                  | some result =>
                      rw [read_failed hcd hdirect hr (Or.inl hw) hcf,
                        read_failed hdd hdirect' hr' (Or.inl hw') hdf]
                      exact ⟨rfl, h2, rfl⟩
                  | none =>
                      rw [read_fed hcd hdirect hr (Or.inl hw) hcf] at hs ⊢
                      rw [read_fed hdd hdirect' hr' (Or.inl hw') hdf]
                      have hrest := ih n'.left (left_receive t.size_pos hr) h2
                        (fun pull hp => hs pull (List.mem_cons_of_mem _ hp)) rfl
                      exact ⟨hrest.result, hrest.after, hrest.network⟩
              | false =>
                  have hw' : d1.withinPaddingBuffers = false := hwsame ▸ hw
                  have hframed' : Framed (core d1) := h1.reader ▸ h1.framed
                  have hsteady' := steady_coupled h1 hsteady
                  obtain ⟨_, c2, hcr, hccore, hcconn, hclive⟩ :=
                    read_raw hcd hdirect hr hw h1.framed hsteady
                  obtain ⟨_, d2, hdr, hdcore, hdconn, hdlive⟩ :=
                    read_raw hdd hdirect' hr' hw' hframed' hsteady'
                  rw [hcr, hdr]
                  refine ⟨rfl, ⟨?_, ?_, ?_, ?_⟩, rfl⟩
                  · exact (hccore.trans h1.reader).trans hdcore.symm
                  · exact hclive.trans hdlive.symm
                  · exact hccore ▸ h1.framed
                  · exact fun _ => ⟨hcconn.trans hcinner, hdconn.trans hdinner⟩

/-! ## Runs -/

/-- No write turns to direct before the peer has. -/
def Late (c : VisionConn) (n : Network) (events : List Event) : Prop :=
  ∀ m ∈ moments c n events, m.early = false

theorem Late.inner {c : VisionConn} {n : Network} {events : List Event} {i : Input}
    (h : Late c n (.write i :: events)) (hc : c.directRead = false → c.conn = .inner) :
    (written c i).directRead = false → (written c i).conn = .inner := by
  intro hd
  obtain ⟨hreader, hconn⟩ := written_same c i
  have hdirect : c.directRead = false := (congrArg Reader.directRead hreader).symm.trans hd
  have hearly : splices c i = false := by
    have := h ⟨c, n, .write i⟩ List.mem_cons_self
    simpa [Moment.early, hdirect] using this
  rcases hconn with hconn | hconn
  · exact hconn.trans (hc hdirect)
  · rw [hearly] at hconn
    cases hconn

theorem reads_inner {c : VisionConn} {n : Network} {events : List Event}
    (hlate : Late c n events) (hc : c.directRead = false → c.conn = .inner) :
    ReadsInner c n events := by
  induction events generalizing c n with
  | nil =>
      intro o ho
      cases ho
  | cons e events ih =>
      cases e with
      | read t =>
          have htakes := read_takes c n t
          intro o ho pull hp
          rcases List.mem_cons.mp ho with rfl | ho
          · obtain ⟨hconn, hdirect⟩ := htakes.pulls pull hp
            exact hconn.trans (hc hdirect)
          · refine ih (fun m hm => hlate m (List.mem_cons_of_mem _ hm)) (fun hd => ?_) o ho pull hp
            exact htakes.after.conn.trans (hc (htakes.after.direct hd))
      | write i =>
          exact ih (fun m hm => hlate m (List.mem_cons_of_mem _ hm)) (hlate.inner hc)

theorem unaffected {c d : VisionConn} {n : Network} {events : List Event} (h : Coupled c d)
    (hlate : Late c n events)
    (hsteady : ∀ o ∈ outcomes (moments c n events), ∀ pull ∈ o.pulls, Steady pull) :
    (outcomes (moments c n events)).map Outcome.result =
      (outcomes (moments d n (events.filter Event.isRead))).map Outcome.result := by
  induction events generalizing c d n with
  | nil => rfl
  | cons e events ih =>
      have hrest : ∀ c' n', moments c n (e :: events) = ⟨c, n, e⟩ :: moments c' n' events →
          Late c' n' events := by
        intro c' n' he m hm
        exact hlate m (by rw [he]; exact List.mem_cons_of_mem _ hm)
      cases e with
      | read t =>
          have hread := read_coupled h fun pull hp => hsteady _ List.mem_cons_self pull hp
          have hnext := ih hread.after (hrest _ _ rfl)
            fun o ho => hsteady o (List.mem_cons_of_mem _ ho)
          show (c.read n t).result :: _ = (d.read n t).result :: _
          rw [hread.result, hread.network]
          rw [hread.network] at hnext
          exact congrArg _ hnext
      | write i =>
          obtain ⟨hreader, _⟩ := written_same c i
          have hcore : core (written c i) = core c := core_same hreader
          have hparts : (written c i).remainingReader = c.remainingReader :=
            congrArg Reader.remainingReader hreader
          refine ih ⟨hcore.trans h.reader, hparts ▸ h.parts, hcore ▸ h.framed, fun hd => ?_⟩
            (hrest _ _ rfl) hsteady
          refine ⟨hlate.inner (fun hd => (h.conn hd).1) hd, ?_⟩
          exact (h.conn ((congrArg Reader.directRead hreader).symm.trans hd)).2

/-- As long as no write turns to direct before the peer has, every read that is still before
the peer's switch takes from the inner connection; and the reads return what the peer's
stream gives them if nothing that they read depends on the filter. -/
theorem directions_independent (uuid : UUID) (input rawIn : Bytes) (n : Network)
    (events : List Event) (hlate : Late (newVisionConn uuid input rawIn) n events) :
    ReadsInner (newVisionConn uuid input rawIn) n events ∧
      ((∀ o ∈ outcomes (moments (newVisionConn uuid input rawIn) n events),
          ∀ pull ∈ o.pulls, Steady pull) →
        Unaffected (newVisionConn uuid input rawIn) n events) := by
  constructor
  · exact reads_inner hlate fun _ => rfl
  · intro hsteady
    refine unaffected ⟨rfl, rfl, ⟨Or.inl ⟨rfl, rfl⟩, fun hw => by cases hw⟩, fun _ => ⟨rfl, rfl⟩⟩
      hlate hsteady

/-- A server hello that chooses TLS 1.3 and `TLS_AES_128_GCM_SHA256`. -/
def serverHello : Bytes :=
  [0x16, 0x03, 0x03, 0x00, 0x5a, 0x02, 0x00, 0x00, 0x56, 0x03, 0x03] ++ List.replicate 32 0 ++
    [0x00, 0x13, 0x01, 0x00, 0x00, 0x2e] ++ tls13SupportedVersions ++
    [0x00, 0x33, 0x00, 0x24, 0x00, 0x1d, 0x00, 0x20] ++ List.replicate 32 0

theorem serverHello_length : serverHello.length ≤ 65535 := by decide

def helloFrame : Frame := ⟨serverHello, [], serverHello_length, Nat.zero_le _⟩

/-- What the peer has sent so far. -/
def greeting : Bytes := sample.uuid.val ++ helloFrame.encode commandPaddingContinue

/-- Between two frames. -/
def between : VisionConn :=
  atAhead (newVisionConn sample.uuid [] []) ⟨[], [], sample.rest⟩

theorem greeting_unPadding (behind : Bytes) :
    (newVisionConn sample.uuid [] []).unPadding ⟨greeting, behind⟩ =
      ([⟨serverHello, behind⟩], between) := by
  have hannounced : (newVisionConn sample.uuid [] []).announced greeting = true := by decide
  have hloop : (newVisionConn sample.uuid [] []).unPadding ⟨greeting, behind⟩ =
      between.unPaddingLoop behind (helloFrame.header sample.rest.command ++ serverHello) := by
    rw [VisionConn.unPadding, if_pos hannounced]
    rfl
  have hrest : sample.rest.command ≠ commandPaddingEnd := by decide
  have hcontent := loop_content (newVisionConn sample.uuid [] [])
    (a := ⟨serverHello, [], sample.rest⟩) (by decide) behind (b := serverHello) (by decide)
  rw [min_self, List.take_length, List.drop_length, loop_nil] at hcontent
  rw [hloop, between, loop_header _ hrest]
  exact hcontent

/-- The filter has found that the tunnel may go direct. -/
def greeted : VisionConn :=
  { between with isTLS := true, isTLS12orAbove := true, remainingServerHello := 0
                 cipher := 0x1301, enableXTLS := true, numberOfPacketToFilter := 0 }

/-- The filter has seen the kind of the hello, but not its extensions. -/
def recognized : VisionConn :=
  { between with numberOfPacketToFilter := 7, isTLS := true, isTLS12orAbove := true
                 remainingServerHello := 95, cipher := 0x1301 }

theorem serverHello_recognize (behind : Bytes) :
    VisionConn.recognize { between with numberOfPacketToFilter := 7 } ⟨serverHello, behind⟩ =
      some recognized := by
  have hlong : 79 ≤ serverHello.length ∧
      79 ≤ byteAt serverHello 3 * 256 + byteAt serverHello 4 + 5 := by decide
  simp only [VisionConn.recognize]
  rw [if_pos (by decide : 6 < serverHello.length), if_pos (by decide), if_pos (by decide),
    if_pos hlong]
  rfl

theorem serverHello_scan : recognized.scan serverHello = greeted := by
  have hstop : min recognized.remainingServerHello.toNat serverHello.length = 95 := by decide
  have hsupported : (Bytes.indexOf tls13SupportedVersions (serverHello.take 95)).isSome := by
    decide
  simp only [VisionConn.scan, hstop]
  rw [if_pos (by decide), if_pos hsupported]
  rfl

theorem greeting_filter (behind : Bytes) :
    between.filterAll [⟨serverHello, behind⟩] = some greeted := by
  have hfilter : between.filterTLS ⟨serverHello, behind⟩ = some greeted := by
    rw [← serverHello_scan]
    exact congrArg (Option.map fun c => c.scan serverHello) (serverHello_recognize behind)
  rw [VisionConn.filterAll, if_pos (by decide), List.foldlM_cons, hfilter]
  rfl

theorem greeting_feed (behind : Bytes) :
    (newVisionConn sample.uuid [] []).feed ⟨greeting, behind⟩ =
      (none, { greeted with remainingReader := some [serverHello] }) := by
  have hsettle : between.settle [⟨serverHello, behind⟩] =
    (some [⟨serverHello, behind⟩], between) := rfl
  simp only [VisionConn.feed, greeting_unPadding, hsettle, greeting_filter]
  rfl

theorem greeting_ne_nil : greeting ≠ [] := by decide

/-- The peer's first bytes and what follows them, and bytes that wait in the raw connection. -/
def greetingNetwork (later : List Chunk) : Network :=
  { inner := ⟨greeting, greeting_ne_nil⟩ :: later, raw := [⟨[0x17], by decide⟩] }

def greetingPull : Pull := ⟨newVisionConn sample.uuid [] [], roomy, roomy.slice greeting⟩

theorem greeting_slice : roomy.slice greeting =
    ⟨greeting, roomy.p.drop greeting.length ++ roomy.spare⟩ := if_pos roomy_large

theorem greeting_read (later : List Chunk) :
    (newVisionConn sample.uuid [] []).read (greetingNetwork later) roomy =
      ⟨.bytes serverHello, [greetingPull], { greeted with remainingReader := some [[]] },
        { greetingNetwork [] with inner := later }⟩ := by
  have hroomy := roomy_large
  have hchunk : xrayChunkSize = 8192 := rfl
  have hsize : roomy.size = roomy.p.length := if_pos roomy_large
  have hgreeting : greeting.length = 116 := by decide
  have hhello : serverHello.length = 95 := by decide
  have hr : (greetingNetwork later).receive (newVisionConn sample.uuid [] []).conn roomy.size =
      some (greeting, { greetingNetwork [] with inner := later }) := by
    change (greetingNetwork later).receive .inner roomy.size = _
    have htake : greeting.take roomy.size = greeting := List.take_of_length_le (by omega)
    have hdrop : greeting.drop roomy.size = [] := List.drop_of_length_le (by omega)
    simp [Network.receive, receive, greetingNetwork, leave, htake, hdrop]
  have hf : (newVisionConn sample.uuid [] []).feed (roomy.slice greeting) =
      (none, { greeted with remainingReader := some [serverHello] }) := by
    rw [greeting_slice]
    exact greeting_feed _
  have hd : VisionConn.drain { greeted with remainingReader := some [serverHello] }
      (roomy.fill greeting).p.length =
        (some serverHello, { greeted with remainingReader := some [[]] }) := by
    have hlen : (roomy.fill greeting).p.length = roomy.p.length :=
      Target.length_fill (by omega)
    have hpos : ¬ roomy.p.length = 0 := by omega
    have htake : serverHello.take roomy.p.length = serverHello :=
      List.take_of_length_le (by omega)
    have hdrop : serverHello.drop roomy.p.length = [] := List.drop_of_length_le (by omega)
    have hne : serverHello ≠ [] := by decide
    simp only [VisionConn.drain, hlen]
    rw [List.dropWhile_cons_of_neg (by simpa using hne)]
    simp only [if_neg hpos, htake, hdrop]
  rw [read_fed rfl rfl hr (Or.inl rfl) hf, read_drained _ hd]
  rfl

/-- Bytes that are no application data. -/
def letter : Input := { p := ⟨[0x41], []⟩, random := fun _ => 0 }

/-- The reader while the letter is written, its filter as the hello left it. -/
def lettered : VisionConn := written { greeted with remainingReader := some [[]] } letter

/-- The peer's last frame. -/
def answer : Bytes := sample.last.encode commandPaddingEnd

theorem answer_ne_nil : answer ≠ [] := List.cons_ne_nil _ _

theorem answer_unPadding (behind : Bytes) :
    VisionConn.unPadding { lettered with remainingReader := none } ⟨answer, behind⟩ =
      ([⟨[0x48], behind⟩],
        atAhead { lettered with remainingReader := none } ⟨[], [], .raw []⟩) := by
  have hloop : VisionConn.unPadding { lettered with remainingReader := none } ⟨answer, behind⟩ =
      (atAhead { lettered with remainingReader := none } ⟨[], [], sample.rest⟩).unPaddingLoop behind
        (sample.last.header (VisionFrames.Rest.raw []).command ++ [0x48]) := rfl
  have hrest : sample.rest.command ≠ commandPaddingEnd := by decide
  have hcontent := loop_content { lettered with remainingReader := none }
    (a := ⟨[0x48], [], .raw []⟩) (by simp) behind (b := [0x48]) (by simp)
  rw [hloop, loop_header _ hrest]
  refine hcontent.trans ?_
  simp [loop_nil]

def answerPull : Pull :=
  ⟨{ lettered with remainingReader := none }, roomy, roomy.slice answer⟩

theorem answer_slice : roomy.slice answer =
    ⟨answer, roomy.p.drop answer.length ++ roomy.spare⟩ := if_pos roomy_large

theorem answer_pulls :
    (lettered.read { greetingNetwork [] with inner := [⟨answer, answer_ne_nil⟩] } roomy).pulls =
      [answerPull] := by
  have hroomy := roomy_large
  have hchunk : xrayChunkSize = 8192 := rfl
  have hsize : roomy.size = roomy.p.length := if_pos roomy_large
  have hanswer : answer.length = 6 := rfl
  have hr : Network.receive { greetingNetwork [] with inner := [⟨answer, answer_ne_nil⟩] }
      { lettered with remainingReader := none : VisionConn }.conn roomy.size =
        some (answer, { greetingNetwork [] with inner := [] }) := by
    have htake : answer.take roomy.size = answer := List.take_of_length_le (by omega)
    have hdrop : answer.drop roomy.size = [] := List.drop_of_length_le (by omega)
    change Network.receive _ .inner roomy.size = _
    simp [Network.receive, receive, leave, htake, hdrop]
  obtain ⟨c, hf, hparts⟩ : ∃ c, VisionConn.feed { lettered with remainingReader := none }
      (roomy.slice answer) = (none, c) ∧ c.remainingReader = some [[0x48]] := by
    rw [answer_slice, VisionConn.feed, answer_unPadding]
    exact ⟨_, rfl, rfl⟩
  have hd : c.drain (roomy.fill answer).p.length =
      (some [0x48], { c with remainingReader := some [[]] }) := by
    have hlen : (roomy.fill answer).p.length = roomy.p.length := Target.length_fill (by omega)
    have hpos : ¬ roomy.p.length = 0 := by omega
    have htake : [(0x48 : UInt8)].take roomy.p.length = [0x48] :=
      List.take_of_length_le (by simp only [List.length_singleton]; omega)
    have hdrop : [(0x48 : UInt8)].drop roomy.p.length = [] :=
      List.drop_of_length_le (by simp only [List.length_singleton]; omega)
    simp [VisionConn.drain, hparts, hlen, hpos, htake, hdrop]
  rw [read_fed rfl rfl hr (Or.inl rfl) hf, read_drained _ hd]
  rfl

/-- A letter is written between the reads of the hello and of the last frame. -/
theorem letter_independent :
    ReadsInner (newVisionConn sample.uuid [] []) (greetingNetwork [⟨answer, answer_ne_nil⟩])
        [.read roomy, .write letter, .read roomy] ∧
      Unaffected (newVisionConn sample.uuid [] []) (greetingNetwork [⟨answer, answer_ne_nil⟩])
        [.read roomy, .write letter, .read roomy] := by
  have hmoments : moments (newVisionConn sample.uuid [] [])
      (greetingNetwork [⟨answer, answer_ne_nil⟩]) [.read roomy, .write letter, .read roomy] =
        [⟨newVisionConn sample.uuid [] [], greetingNetwork [⟨answer, answer_ne_nil⟩], .read roomy⟩,
          ⟨{ greeted with remainingReader := some [[]] },
            { greetingNetwork [] with inner := [⟨answer, answer_ne_nil⟩] }, .write letter⟩,
          ⟨lettered, { greetingNetwork [] with inner := [⟨answer, answer_ne_nil⟩] },
            .read roomy⟩] := by
    simp only [moments, greeting_read, lettered]
  have hlate : Late (newVisionConn sample.uuid [] []) (greetingNetwork [⟨answer, answer_ne_nil⟩])
      [.read roomy, .write letter, .read roomy] := by
    intro m hm
    simp only [hmoments, List.mem_cons, List.not_mem_nil, or_false] at hm
    rcases hm with rfl | rfl | rfl <;> rfl
  obtain ⟨hinner, hsame⟩ := directions_independent sample.uuid [] []
    (greetingNetwork [⟨answer, answer_ne_nil⟩]) [.read roomy, .write letter, .read roomy] hlate
  refine ⟨hinner, hsame fun o ho pull hp => ?_⟩
  rw [hmoments] at ho
  simp only [outcomes, List.filterMap, List.mem_cons, List.not_mem_nil, or_false] at ho
  rcases ho with rfl | rfl
  · simp only [greeting_read, List.mem_singleton] at hp
    subst hp
    refine ⟨fun hw => Bool.noConfusion hw, fun s hs hover => ?_⟩
    simp only [greetingPull, greeting_slice, greeting_unPadding, List.mem_singleton] at hs
    subst hs
    have hroom := hover.2.2.2.2
    have hsession : byteAt serverHello 43 = 0 := by decide
    have hhello : serverHello.length = 95 := by decide
    simp only [List.length_append] at hroom
    omega
  · rw [answer_pulls, List.mem_singleton] at hp
    subst hp
    refine ⟨fun hw => Bool.noConfusion hw, fun s hs hover => ?_⟩
    simp only [answerPull, answer_slice, answer_unPadding, List.mem_singleton] at hs
    subst hs
    exact absurd hover.1 (by simp)

/-- The first application data after the handshake. -/
def record : Input :=
  { p := ⟨[0x17, 0x03, 0x03, 0x00, 0x02, 0x01, 0x02], []⟩, random := fun _ => 0 }

/-- Once the client has gone direct the next read takes from the raw connection, although the
peer has not. -/
theorem spliced_read_takes_raw :
    ¬ ∀ (uuid : UUID) (input rawIn : Bytes) (n : Network) (events : List Event),
      ReadsInner (newVisionConn uuid input rawIn) n events ∧
        Unaffected (newVisionConn uuid input rawIn) n events := by
  intro h
  obtain ⟨hinner, _⟩ := h sample.uuid [] [] (greetingNetwork [])
    [.read roomy, .write record, .read roomy]
  let spliced := written { greeted with remainingReader := some [[]] } record
  have hr : Network.receive { greetingNetwork [] with inner := [] }
      { spliced with remainingReader := none : VisionConn }.conn roomy.size =
        some ([0x17], { inner := [], raw := [] }) := by
    change Network.receive { greetingNetwork [] with inner := [] } .raw roomy.size = _
    have hpos := roomy.size_pos
    have htake : [(0x17 : UInt8)].take roomy.size = [0x17] := List.take_of_length_le hpos
    have hdrop : [(0x17 : UInt8)].drop roomy.size = [] := List.drop_of_length_le hpos
    simp [Network.receive, receive, greetingNetwork, leave, htake, hdrop]
  have hmem := pull_mem (c := spliced) rfl rfl hr
  have hraw := hinner (spliced.read { greetingNetwork [] with inner := [] } roomy) (by
    simp only [outcomes, moments, greeting_read, List.filterMap]
    exact List.mem_cons_of_mem _ List.mem_cons_self) _ hmem
  cases hraw

end DshClashProxy.Core.VisionDirections
