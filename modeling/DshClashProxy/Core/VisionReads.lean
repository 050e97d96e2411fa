import DshClashProxy.Core.VisionStream

/-!
# Reading with any buffer

A read with more than 8192 bytes of room reads the embedded connection into the caller's buffer, a
smaller one into a chunk of its own. The two ways part where a result comes with an error, which
ends only the first, and past the padding, where the second does not copy what it has read.
Everywhere else what is read is one stream, whatever the buffers are.
-/
namespace DshClashProxy.Core.VisionReads

open Js Vision
open VisionFrames (sample roomy roomy_large)
open VisionDirections (Counting)
open VisionCuts VisionTwins VisionStream

/-! ## Reading -/

/-- History: a read of the embedded connection, the state before it and what comes next there. -/
structure Pull where
  before : VisionConn
  target : Target
  next : Arrival

inductive Returned where
  | ok (n : Nat) (error : Option Go.Error)
  | failed (result : Result)

structure Outcome where
  returned : Returned
  /-- The caller's buffer afterwards. -/
  p : Bytes
  pulls : List Pull
  after : VisionConn
  source : Source

/-- The bytes a caller takes from its buffer. -/
def Outcome.output (o : Outcome) : Bytes :=
  match o.returned with
  | .ok n _ => o.p.take n
  | .failed _ => []

/-- `Read` over connections whose results may carry bytes and an error. -/
def readFrom (c : VisionConn) (s : Source) (t : Target) : Outcome :=
  match c.drain t.p.length with
  | (some b, c) => ⟨.ok b.length none, b ++ t.p.drop b.length, [], c, s⟩
  | (none, c) =>
      if c.directRead then
        let (a, s) := s.receive .raw t.p.length
        ⟨.ok a.bytes.length a.error, a.bytes ++ t.p.drop a.bytes.length, [], c, s⟩
      else
        let pull : Pull := ⟨c, t, (s.on c.conn).headD ended⟩
        match _hr : s.receive c.conn t.size with
        | (a, s') =>
            if _ha : a.error.isSome ∧ (xrayChunkSize < t.p.length ∨ a.bytes = []) then
              ⟨.ok a.bytes.length a.error, (t.fill a.bytes).p, [pull], c, s'⟩
            else if c.withinPaddingBuffers ∨ 0 < c.numberOfPacketToFilter then
              match c.feed (t.slice a.bytes) with
              | (some result, c) => ⟨.failed result, (t.fill a.bytes).p, [pull], c, s'⟩
              | (none, c) =>
                  let o := readFrom c s' (t.fill a.bytes)
                  { o with pulls := pull :: o.pulls }
            else ⟨.ok a.bytes.length a.error, (t.fill a.bytes).p, [pull], c, s'⟩
termination_by s.left
decreasing_by
  exact Source.left_receive t.size_pos _hr fun h => _ha ⟨h.1, .inr h.2⟩

/-- A run of reads, each with a buffer of its own. -/
def readAll (c : VisionConn) (s : Source) : List Target → List Outcome
  | [] => []
  | t :: rest => readFrom c s t :: readAll (readFrom c s t).after (readFrom c s t).source rest

/-- The bytes returned over a run. -/
def output (os : List Outcome) : Bytes := os.flatMap Outcome.output

/-- The state and the source after a run. -/
def endOf (c : VisionConn) (s : Source) : List Target → VisionConn × Source
  | [] => (c, s)
  | t :: rest => endOf (readFrom c s t).after (readFrom c s t).source rest

/-- Nothing is left to return. -/
def Drained (r : VisionConn × Source) : Prop :=
  (r.1.remainingReader.getD []).flatten = [] ∧ r.2.on (wire r.1) = []

/-- What the buffer gets of the next result. -/
def Pull.received (pull : Pull) : Arrival :=
  if pull.next.bytes.length ≤ pull.target.size then pull.next
  else ⟨pull.next.bytes.take pull.target.size, none⟩

/-- What the buffer got is returned with its error. -/
def Pull.early (pull : Pull) : Bool :=
  pull.received.error.isSome &&
    (xrayChunkSize < pull.target.p.length || pull.received.bytes = [])

/-- A read of the embedded connection in which the size of the buffer does not show. -/
structure Clean (pull : Pull) : Prop where
  /-- A result that is unpadded or filtered fits the buffer, or may be cut where the buffer ends. -/
  cut : feeds pull.before = true → pull.next.bytes.length ≤ pull.target.size ∨
    MayCut pull.before pull.next.bytes pull.target.size
  /-- A result that is not goes to a large buffer. -/
  passed : feeds pull.before = false → pull.next.bytes ≠ [] → xrayChunkSize < pull.target.p.length
  /-- A result that is returned with its error has no frames. -/
  frameless : feeds pull.before = true → pull.early = true → pull.received.bytes ≠ [] →
    plain pull.before pull.received.bytes = true
  /-- No content that goes through the filter overruns. -/
  content : pull.early = false → 0 < pull.before.numberOfPacketToFilter →
    ∀ b ∈ (pull.before.unPadding (pull.target.slice pull.received.bytes)).1, ¬ Overruns b

/-- The filter does not get the result in one piece. -/
def Pull.miscounts (pull : Pull) : Bool :=
  feeds pull.before &&
    (pull.target.size < pull.next.bytes.length || (pull.early && pull.received.bytes ≠ []))

/-- Every read is clean, and once the filter has not got a result in one piece no padded stream
starts again: whether it is looked for depends on how many pieces the filter has counted. -/
def CleanFrom : Bool → List Pull → Prop
  | _, [] => True
  | miscounted, pull :: rest => Clean pull ∧
      (miscounted = true → pull.before.announced pull.received.bytes = false) ∧
      CleanFrom (miscounted || pull.miscounts) rest

/-- Every buffer has room, the counters are those of a connection that has been read from and
written to, and every step of the run is clean. -/
structure CleanRun (c : VisionConn) (s : Source) (targets : List Target) : Prop where
  room : ∀ t ∈ targets, 0 < t.p.length
  counting : Counting c.remainingContent c.remainingPadding
  clean : CleanFrom false ((readAll c s targets).flatMap Outcome.pulls)

/-- The buffer holds what is returned, and nothing panics. -/
def Returned.Within (size : Nat) : Returned → Prop
  | .ok n _ => n ≤ size
  | .failed result => result ≠ .panic

/-- Each read returns no more than its buffer holds. -/
def Fits (c : VisionConn) (s : Source) (targets : List Target) : Prop :=
  List.Forall₂ (fun o t => o.returned.Within t.p.length) (readAll c s targets) targets

/-- Two runs from the same state return parts of the same stream, and the same once both have
drained it. -/
structure SameStream (c : VisionConn) (s : Source) (targets targets' : List Target) : Prop where
  fits : Fits c s targets ∧ Fits c s targets'
  comparable : output (readAll c s targets) <+: output (readAll c s targets') ∨
    output (readAll c s targets') <+: output (readAll c s targets)
  whole : Drained (endOf c s targets) → Drained (endOf c s targets') →
    output (readAll c s targets) = output (readAll c s targets')

/-! ## What is received -/

/-- What the buffer got. -/
theorem receive_received {c : VisionConn} {s s' : Source} {t : Target} {wire : Wire} {a : Arrival}
    (h : s.receive wire t.size = (a, s')) :
    a = Pull.received ⟨c, t, (s.on wire).headD ended⟩ := by
  unfold Source.receive at h
  split at h
  · next hs =>
      rw [Pull.received, hs]
      exact (Prod.mk.inj h).1.symm
  · next b rest hs =>
      rw [Pull.received, hs]
      change a = if b.bytes.length ≤ t.size then b else ⟨b.bytes.take t.size, none⟩
      split_ifs at h ⊢
      · exact (Prod.mk.inj h).1.symm
      · exact (Prod.mk.inj h).1.symm

theorem size_large (t : Target) : 21 ≤ t.size := by
  rw [Target.size, xrayChunkSize]
  split <;> omega

theorem absorb_nothing {c : VisionConn} (h : c.directRead = false) : absorb c ended = ([], c) :=
  absorb_ended h ⟨rfl, rfl⟩

/-- What is received comes from the front of what is owed. -/
theorem owes_absorbed {miscounted : Bool} {c : VisionConn} {s s' : Source} {t : Target}
    {a : Arrival} {owed : Bytes} (hdirect : c.directRead = false)
    (hcount : Counting c.remainingContent c.remainingPadding)
    (hr : s.receive (wire c) t.size = (a, s'))
    (hclean : Clean ⟨c, t, (s.on (wire c)).headD ended⟩)
    (hopen : miscounted = true → c.announced a.bytes = false) {now : Bool}
    (hnow : now = true ↔
      feeds c = true ∧ t.size < ((s.on (wire c)).headD ended).bytes.length)
    (h : Owes miscounted c s owed) :
    ∃ more, owed = (absorb c a).1 ++ more ∧ Owes (miscounted || now) (absorb c a).2 s' more := by
  have hcut := hclean.cut
  unfold Source.receive at hr
  cases hs : s.on (wire c) with
  | nil =>
      rw [hs] at hr
      obtain ⟨rfl, rfl⟩ := Prod.mk.inj hr
      have hflag : now = false := by
        rw [hs] at hnow
        exact Bool.eq_false_iff.mpr fun h => Nat.not_lt_zero _ (hnow.mp h).2
      rw [absorb_nothing hdirect, hflag, Bool.or_false]
      exact ⟨owed, rfl, h⟩
  | cons b rest =>
      rw [hs] at hr hcut hnow
      simp only [List.headD_cons] at hr hcut hnow
      split_ifs at hr with hlen
      · obtain ⟨rfl, rfl⟩ := Prod.mk.inj hr
        have hflag : now = false :=
          Bool.eq_false_iff.mpr fun h => Nat.not_lt.mpr hlen (hnow.mp h).2
        rw [hflag, Bool.or_false]
        cases miscounted with
        | false => exact ⟨_, h.trans (stream_cons hs), rfl⟩
        | true =>
            obtain ⟨d, hd, howed⟩ := h.next hdirect hs (hopen rfl)
            exact ⟨_, howed, .of_abreast hd _⟩
      obtain ⟨rfl, rfl⟩ := Prod.mk.inj hr
      have hparted : plain c b.bytes = true ∨ feeds c = true → Parted c b t.size := fun h =>
        parted hdirect hcount (size_large t) (Nat.not_le.mp hlen)
          (h.imp_right fun hf => ⟨hf, (hcut hf).resolve_left hlen⟩)
      have hopen' : miscounted = true → c.announced b.bytes = false := fun hm => by
        rw [← announced_take c b.bytes (size_large t) (Nat.not_le.mp hlen).le]
        exact hopen hm
      cases miscounted with
      | true =>
          obtain ⟨d, hd, howed⟩ := h.next hdirect hs (hopen' rfl)
          have hpart : Parted c b t.size := by
            cases hf : feeds c with
            | true => exact hparted (.inr hf)
            | false =>
                rw [feeds, Bool.or_eq_false_iff] at hf
                refine hparted (.inl ?_)
                rw [plain, h.outside hdirect hf.1, hopen' rfl]
                rfl
          obtain ⟨more, hmore, hawaits⟩ := awaits_cut s rest hdirect hpart (.inr hd)
          exact ⟨more, howed.trans hmore, hawaits⟩
      | false =>
          cases hf : feeds c with
          | true =>
              obtain ⟨more, hmore, hawaits⟩ := awaits_cut s rest hdirect
                (hparted (.inr hf)) (.inl rfl)
              rw [hnow.mpr ⟨hf, Nat.not_le.mp hlen⟩]
              exact ⟨more, (h.trans (stream_cons hs)).trans hmore, hawaits⟩
          | false =>
              have hflag : now = false := Bool.eq_false_iff.mpr fun h =>
                absurd (hf.symm.trans (hnow.mp h).1) (by decide)
              have hback : (s.set (wire c) (⟨b.bytes.drop t.size, b.error⟩ :: rest)).on (wire c) =
                  ⟨b.bytes.drop t.size, b.error⟩ :: rest := Source.on_set _ _ _
              rw [hflag, absorb_passed hdirect hf]
              refine ⟨_, ?_, rfl⟩
              rw [stream_cons hback, absorb_passed hdirect hf, Source.set_set,
                ← List.append_assoc, List.take_append_drop]
              refine (h.trans (stream_cons hs)).trans ?_
              rw [absorb_passed hdirect hf]

/-- What is returned with its error comes from the front of what is owed. -/
theorem owes_early {miscounted : Bool} {c : VisionConn} {s s' : Source} {t : Target}
    {a : Arrival} {owed : Bytes} (hdirect : c.directRead = false)
    (hcount : Counting c.remainingContent c.remainingPadding)
    (hr : s.receive (wire c) t.size = (a, s')) {pull : Pull}
    (hpull : pull = ⟨c, t, (s.on (wire c)).headD ended⟩) (hclean : Clean pull)
    (hearly : pull.early = true) (hopen : miscounted = true → c.announced a.bytes = false)
    (h : Owes miscounted c s owed) :
    ∃ more, owed = a.bytes ++ more ∧ Owes (miscounted || pull.miscounts) c s' more := by
  subst hpull
  have ha := receive_received (c := c) hr
  have herror : a.error.isSome = true := by
    rw [Pull.early, ← ha, Bool.and_eq_true] at hearly
    exact hearly.1
  have hlate : ∀ {now}, (now = true ↔
      feeds c = true ∧ t.size < ((s.on (wire c)).headD ended).bytes.length) →
      ∃ more, owed = (absorb c a).1 ++ more ∧
        Owes (miscounted || now) (absorb c a).2 s' more := fun hnow =>
    owes_absorbed hdirect hcount hr hclean hopen hnow h
  by_cases hplain : feeds c = true ∧ a.bytes ≠ []
  · have hp := hclean.frameless hplain.1 hearly (by rw [← ha]; exact hplain.2)
    rw [← ha] at hp
    obtain ⟨hbytes, hdir, hfr, huser⟩ := absorb_plain hdirect hp
    have hframeless : c.frameless = true := by
      rw [plain, Bool.and_eq_true] at hp
      exact hp.1
    have hsame : Abreast c (absorb c a).2 := ⟨huser, (absorb_forward c a).conn,
      hdir.trans hdirect.symm, fun _ => .inl ⟨hframeless, hfr⟩⟩
    have hflag : Pull.miscounts ⟨c, t, (s.on (wire c)).headD ended⟩ = true := by
      rw [Pull.miscounts, hearly, ← ha, decide_eq_true hplain.2, Bool.and_true, Bool.or_true,
        Bool.and_true]
      exact hplain.1
    have hnow : (feeds c && decide (t.size < ((s.on (wire c)).headD ended).bytes.length)) = true ↔
        feeds c = true ∧ t.size < ((s.on (wire c)).headD ended).bytes.length := by
      rw [Bool.and_eq_true, decide_eq_true_eq]
    obtain ⟨more, howed, hmore⟩ := hlate hnow
    rw [hflag, Bool.or_true]
    rw [hbytes] at howed
    exact ⟨more, howed, awaits_of_owes hsame hmore⟩
  · have habsorb : absorb c a = (a.bytes, c) := by
      by_cases hf : feeds c = true
      · have hnil : a.bytes = [] := not_not.mp fun hne => hplain ⟨hf, hne⟩
        rw [absorb_ended hdirect ⟨herror, hnil⟩, hnil]
      · exact absorb_passed hdirect (Bool.eq_false_iff.mpr hf) a
    have hflag : Pull.miscounts ⟨c, t, (s.on (wire c)).headD ended⟩ = true ↔
        feeds c = true ∧ t.size < ((s.on (wire c)).headD ended).bytes.length := by
      rw [Pull.miscounts, hearly, ← ha]
      by_cases hf : feeds c = true
      · have hnil : a.bytes = [] := not_not.mp fun hne => hplain ⟨hf, hne⟩
        simp [hnil]
      · simp [hf]
    obtain ⟨more, howed, hmore⟩ := hlate hflag
    rw [habsorb] at howed hmore
    exact ⟨more, howed, hmore⟩

/-! ## One read -/

theorem receive_length {s s' : Source} {wire : Wire} {size : Nat} {a : Arrival}
    (h : s.receive wire size = (a, s')) : a.bytes.length ≤ size := by
  unfold Source.receive at h
  split at h
  · obtain ⟨rfl, -⟩ := Prod.mk.inj h
    exact Nat.zero_le _
  · split_ifs at h with hlen <;> obtain ⟨rfl, -⟩ := Prod.mk.inj h
    · exact hlen
    · exact List.length_take_le _ _

theorem drain_length {c c' : VisionConn} {size : Nat} {b : Bytes}
    (h : c.drain size = (some b, c')) : b.length ≤ size := by
  unfold VisionConn.drain at h
  split at h
  · cases h
  · split at h
    · cases h
    · split_ifs at h
      · cases h
      · obtain ⟨hb, -⟩ := Prod.mk.inj h
        rw [← Option.some.inj hb]
        exact List.length_take_le _ _

/-- What is still to be returned. -/
def Pends (miscounted : Bool) (c : VisionConn) (s : Source) (bytes : Bytes) : Prop :=
  ∃ owed, Owes miscounted c s owed ∧ bytes = (c.remainingReader.getD []).flatten ++ owed

/-- A read returns a part of what is pending that its buffer holds. -/
structure Sound (miscounted : Bool) (c : VisionConn) (s : Source) (t : Target) (o : Outcome) :
    Prop where
  within : o.returned.Within t.p.length
  counting : Counting o.after.remainingContent o.after.remainingPadding
  rest : ∀ {bytes}, Pends miscounted c s bytes → ∃ more, bytes = o.output ++ more ∧
    Pends (miscounted || o.pulls.any Pull.miscounts) o.after o.source more

/-- Past the multi-reader and the direct mode, a read turns on what it receives. -/
theorem readFrom_received {c c1 : VisionConn} {s s' : Source} {t : Target} {a : Arrival}
    (hd : c.drain t.p.length = (none, c1)) (hdirect : c1.directRead = false)
    (hr : s.receive c1.conn t.size = (a, s')) :
    readFrom c s t =
      if a.error.isSome ∧ (xrayChunkSize < t.p.length ∨ a.bytes = []) then
        ⟨.ok a.bytes.length a.error, (t.fill a.bytes).p, [⟨c1, t, (s.on c1.conn).headD ended⟩],
          c1, s'⟩
      else if feeds c1 then
        match c1.feed (t.slice a.bytes) with
        | (some result, c2) =>
            ⟨.failed result, (t.fill a.bytes).p, [⟨c1, t, (s.on c1.conn).headD ended⟩], c2, s'⟩
        | (none, c2) =>
            { readFrom c2 s' (t.fill a.bytes) with
              pulls := ⟨c1, t, (s.on c1.conn).headD ended⟩ ::
                (readFrom c2 s' (t.fill a.bytes)).pulls }
      else
        ⟨.ok a.bytes.length a.error, (t.fill a.bytes).p, [⟨c1, t, (s.on c1.conn).headD ended⟩],
          c1, s'⟩ := by
  have hfeeds : feeds c1 = true ↔
      c1.withinPaddingBuffers = true ∨ 0 < c1.numberOfPacketToFilter := by
    rw [feeds, Bool.or_eq_true, decide_eq_true_iff]
  rw [readFrom, hd]
  simp only [hdirect, Bool.false_eq_true, if_false, hr, hfeeds]
  rfl

theorem readFrom_drained {c c1 : VisionConn} {t : Target} {b : Bytes} (s : Source)
    (hd : c.drain t.p.length = (some b, c1)) :
    readFrom c s t = ⟨.ok b.length none, b ++ t.p.drop b.length, [], c1, s⟩ := by
  rw [readFrom, hd]

theorem readFrom_direct {c c1 : VisionConn} {s s' : Source} {t : Target} {a : Arrival}
    (hd : c.drain t.p.length = (none, c1)) (hdirect : c1.directRead = true)
    (hr : s.receive .raw t.p.length = (a, s')) :
    readFrom c s t =
      ⟨.ok a.bytes.length a.error, a.bytes ++ t.p.drop a.bytes.length, [], c1, s'⟩ := by
  rw [readFrom, hd]
  simp only [hdirect, if_true, hr]

theorem pends_emptied {miscounted : Bool} {c : VisionConn} (h : c.remainingReader = none)
    {s : Source} {bytes : Bytes} : Pends miscounted c s bytes ↔ Owes miscounted c s bytes := by
  rw [Pends, h, Option.getD_none, List.flatten_nil]
  simp only [List.nil_append, exists_eq_right']

/-- What the direct mode returns is a part of the raw connection's stream. -/
theorem direct_sound {miscounted : Bool} {c : VisionConn} {s s' : Source} {t : Target}
    {a : Arrival} (hparts : c.remainingReader = none) (hdirect : c.directRead = true)
    (hcount : Counting c.remainingContent c.remainingPadding)
    (hr : s.receive .raw t.p.length = (a, s')) :
    Sound miscounted c s t
      ⟨.ok a.bytes.length a.error, a.bytes ++ t.p.drop a.bytes.length, [], c, s'⟩ := by
  refine ⟨receive_length hr, hcount, fun {bytes} hp => ?_⟩
  rw [pends_emptied hparts, owes_direct hdirect, stream_direct hdirect] at hp
  have hraw : s.raw.flatMap Arrival.bytes = a.bytes ++ s'.raw.flatMap Arrival.bytes := by
    unfold Source.receive at hr
    cases hs : s.on .raw with
    | nil =>
        rw [hs] at hr
        obtain ⟨rfl, rfl⟩ := Prod.mk.inj hr
        rfl
    | cons b rest =>
        rw [hs] at hr
        rw [show s.raw = b :: rest from hs, List.flatMap_cons]
        dsimp only at hr
        split_ifs at hr
        · obtain ⟨rfl, rfl⟩ := Prod.mk.inj hr
          rfl
        · obtain ⟨rfl, rfl⟩ := Prod.mk.inj hr
          change _ = b.bytes.take t.p.length ++ (b.bytes.drop t.p.length ++ _)
          rw [← List.append_assoc, List.take_append_drop]
          rfl
  refine ⟨stream c s', ?_, ?_⟩
  · change bytes = (a.bytes ++ t.p.drop a.bytes.length).take a.bytes.length ++ stream c s'
    rw [List.take_left, stream_direct hdirect, hp, hraw]
  · rw [pends_emptied hparts, owes_direct hdirect]

/-- A clean result passes whole through the caller's buffer. -/
theorem take_fill {t : Target} {b : Bytes} (h : b ≠ [] → xrayChunkSize < t.p.length) :
    (t.fill b).p.take b.length = b := by
  by_cases hb : b = []
  · rw [hb]
    rfl
  · rw [Target.fill, if_pos (h hb)]
    exact List.take_left

theorem slice_behind (t : Target) (b : Bytes) : ∃ behind, t.slice b = ⟨b, behind⟩ := by
  unfold Target.slice
  split <;> exact ⟨_, rfl⟩

/-- What is returned past the filter, with or without an error. -/
theorem passed_sound {miscounted : Bool} {c : VisionConn} {s s' : Source} {t : Target}
    {a : Arrival} {pull : Pull} (hparts : c.remainingReader = none)
    (hcount : Counting c.remainingContent c.remainingPadding)
    (hlen : a.bytes.length ≤ t.size) (hlarge : a.bytes ≠ [] → xrayChunkSize < t.p.length)
    (howes : ∀ {owed}, Owes miscounted c s owed → ∃ more, owed = a.bytes ++ more ∧
      Owes (miscounted || pull.miscounts) c s' more) :
    Sound miscounted c s t
      ⟨.ok a.bytes.length a.error, (t.fill a.bytes).p, [pull], c, s'⟩ := by
  refine ⟨?_, hcount, fun {bytes} hp => ?_⟩
  · change a.bytes.length ≤ t.p.length
    by_cases hb : a.bytes = []
    · rw [hb]
      exact Nat.zero_le _
    · rwa [Target.size, if_pos (hlarge hb)] at hlen
  · obtain ⟨more, hmore, howed⟩ := howes ((pends_emptied hparts).mp hp)
    refine ⟨more, ?_, ?_⟩
    · change bytes = (t.fill a.bytes).p.take a.bytes.length ++ more
      rw [take_fill hlarge, hmore]
    · rw [pends_emptied hparts]
      simpa only [List.any_cons, List.any_nil, Bool.or_false] using howed

/-- What is unpadded or filtered, when the read that goes on behind it is sound. -/
theorem fed_sound {miscounted : Bool} {c : VisionConn} {s s' : Source} {t : Target} {a : Arrival}
    {pull : Pull} (hparts : c.remainingReader = none)
    (hcount : Counting c.remainingContent c.remainingPadding) (hlen : a.bytes.length ≤ t.size)
    (hcontent : 0 < c.numberOfPacketToFilter →
      ∀ b ∈ (c.unPadding (t.slice a.bytes)).1, ¬ Overruns b)
    (habsorb : absorb c a = match c.feed ⟨a.bytes, spacious⟩ with
      | (some _, c) => ([], c)
      | (none, c) => ((c.remainingReader.getD []).flatten, c))
    (howes : ∀ {owed}, Owes miscounted c s owed → ∃ more, owed = (absorb c a).1 ++ more ∧
      Owes (miscounted || pull.miscounts) (absorb c a).2 s' more)
    (ih : ∀ c2, c.feed (t.slice a.bytes) = (none, c2) →
      Sound (miscounted || pull.miscounts) c2 s' (t.fill a.bytes)
        (readFrom c2 s' (t.fill a.bytes))) :
    Sound miscounted c s t (match c.feed (t.slice a.bytes) with
      | (some result, c2) => ⟨.failed result, (t.fill a.bytes).p, [pull], c2, s'⟩
      | (none, c2) =>
          { readFrom c2 s' (t.fill a.bytes) with
            pulls := pull :: (readFrom c2 s' (t.fill a.bytes)).pulls }) := by
  obtain ⟨behind, hslice⟩ := slice_behind t a.bytes
  rw [hslice] at hcontent ih ⊢
  rcases feed_twin ⟨_, _, _, rfl⟩ hcontent fun _ => unPadding_spacious c a.bytes with
    ⟨command, c2, d2, hfeed, hfeed', htwin⟩ |
      ⟨parts, c2, d2, hfeed, hfeed', htwin, hc2, hd2⟩
  · rw [hfeed'] at habsorb
    simp only [hfeed]
    have hcount' := VisionDirections.feed_counting hcount ⟨a.bytes, behind⟩
    rw [hfeed] at hcount'
    refine ⟨(fun h => by cases h), hcount', fun {bytes} hp => ?_⟩
    obtain ⟨more, hmore, howed⟩ := howes ((pends_emptied hparts).mp hp)
    rw [habsorb] at hmore howed
    refine ⟨more, hmore, ?_⟩
    rw [pends_emptied ((feed_failed hfeed).1.trans hparts)]
    simpa only [List.any_cons, List.any_nil, Bool.or_false] using owes_twin htwin.symm howed
  · rw [hfeed'] at habsorb
    simp only [hd2, Option.getD_some] at habsorb
    simp only [hfeed]
    obtain ⟨hwithin, hcount', hrest⟩ := ih c2 hfeed
    refine ⟨Target.length_fill hlen ▸ hwithin, hcount', fun {bytes} hp => ?_⟩
    obtain ⟨more, hmore, howed⟩ := howes ((pends_emptied hparts).mp hp)
    rw [habsorb] at hmore howed
    have hpending : Pends (miscounted || pull.miscounts) c2 s' bytes :=
      ⟨more, owes_twin htwin.symm howed, by rw [hc2]; exact hmore⟩
    obtain ⟨more', hmore', hpends⟩ := hrest hpending
    refine ⟨more', hmore', ?_⟩
    rwa [List.any_cons, ← Bool.or_assoc]

/-- A read past the multi-reader and the direct mode, when the reads it makes are sound. -/
theorem received_sound {miscounted : Bool} {c c1 : VisionConn} {s s' : Source} {t : Target}
    {a : Arrival} (hd : c.drain t.p.length = (none, c1)) (hdirect : c1.directRead = false)
    (hr : s.receive c1.conn t.size = (a, s')) (hparts : c1.remainingReader = none)
    (hcount : Counting c1.remainingContent c1.remainingPadding)
    (hc : CleanFrom miscounted (readFrom c s t).pulls)
    (ih : ¬ (a.error.isSome = true ∧ a.bytes = []) → ∀ miscounted c2,
      Counting c2.remainingContent c2.remainingPadding →
      CleanFrom miscounted (readFrom c2 s' (t.fill a.bytes)).pulls →
        Sound miscounted c2 s' (t.fill a.bytes) (readFrom c2 s' (t.fill a.bytes))) :
    Sound miscounted c1 s t (readFrom c s t) := by
  have hwire : wire c1 = c1.conn := if_neg (by rw [hdirect]; decide)
  have hread := readFrom_received hd hdirect hr
  have ha := receive_received (c := c1) hr
  obtain ⟨pull, hpull⟩ : ∃ pull : Pull, pull = ⟨c1, t, (s.on c1.conn).headD ended⟩ := ⟨_, rfl⟩
  rw [← hpull] at ha hread
  obtain ⟨more, hpulls⟩ : ∃ more, (readFrom c s t).pulls = pull :: more := by
    rw [hread]
    split_ifs
    · exact ⟨_, rfl⟩
    · split <;> exact ⟨_, rfl⟩
    · exact ⟨_, rfl⟩
  have hclean : Clean pull ∧
      (miscounted = true → c1.announced a.bytes = false) := by
    rw [hpulls] at hc
    refine ⟨hc.1, fun hm => ?_⟩
    have hopen := hc.2.1 hm
    rw [← ha] at hopen
    rwa [hpull] at hopen
  obtain ⟨hclean, hopen⟩ := hclean
  have hlen := receive_length hr
  have hearly : pull.early = true ↔
      a.error.isSome = true ∧ (xrayChunkSize < t.p.length ∨ a.bytes = []) := by
    rw [Pull.early, ← ha, hpull]
    simp only [Bool.and_eq_true, Bool.or_eq_true, decide_eq_true_eq]
  have hnext : a.bytes ≠ [] → pull.next.bytes ≠ [] := by
    rw [ha, Pull.received]
    split_ifs
    · exact id
    · exact fun h h' => h (by rw [h', List.take_nil])
  rw [← hwire] at hr
  rw [← hwire] at hpull
  by_cases hend : a.error.isSome = true ∧ (xrayChunkSize < t.p.length ∨ a.bytes = [])
  · rw [hread, if_pos hend]
    refine passed_sound hparts hcount hlen (fun hb => hend.2.resolve_right hb) fun howed => ?_
    exact owes_early hdirect hcount hr hpull hclean (hearly.mpr hend) hopen howed
  have hnot : pull.early = false := Bool.eq_false_iff.mpr fun h => hend (hearly.mp h)
  have hcounts : pull.miscounts = true ↔
      feeds c1 = true ∧ t.size < ((s.on (wire c1)).headD ended).bytes.length := by
    rw [Pull.miscounts, hnot, hpull]
    simp
  have howes : ∀ {owed}, Owes miscounted c1 s owed → ∃ more, owed = (absorb c1 a).1 ++ more ∧
      Owes (miscounted || pull.miscounts) (absorb c1 a).2 s' more := fun howed =>
    owes_absorbed hdirect hcount hr (hpull ▸ hclean) hopen hcounts howed
  have hshown : ¬ (a.error.isSome = true ∧ a.bytes = []) := fun h => hend ⟨h.1, .inr h.2⟩
  by_cases hf : feeds c1 = true
  · have hcontent := hclean.content hnot
    rw [← ha, hpull] at hcontent
    have hrest : ∀ c2, c1.feed (t.slice a.bytes) = (none, c2) →
        CleanFrom (miscounted || pull.miscounts) (readFrom c2 s' (t.fill a.bytes)).pulls := by
      intro c2 hfeed
      rw [hread, if_neg hend, if_pos hf, hfeed] at hc
      exact hc.2.2
    rw [hread, if_neg hend, if_pos hf]
    refine fed_sound hparts hcount hlen hcontent (absorb_fed hdirect hshown hf) howes
      fun c2 hfeed => ih hshown _ c2 ?_ (hrest c2 hfeed)
    have hcount' := VisionDirections.feed_counting hcount (t.slice a.bytes)
    rwa [hfeed] at hcount'
  · have hf' := Bool.eq_false_iff.mpr hf
    rw [hread, if_neg hend, if_neg hf]
    rw [absorb_passed hdirect hf'] at howes
    refine passed_sound hparts hcount hlen (fun hb => ?_) howes
    have hlarge := hclean.passed
    rw [hpull] at hlarge hnext
    exact hlarge hf' (hnext hb)

theorem readFrom_sound (miscounted : Bool) (c : VisionConn) (s : Source) {t : Target}
    (ht : 0 < t.p.length) (hcount : Counting c.remainingContent c.remainingPadding)
    (hc : CleanFrom miscounted (readFrom c s t).pulls) :
    Sound miscounted c s t (readFrom c s t) := by
  induction hn : s.left using Nat.strong_induction_on generalizing miscounted c s t with
  | _ n ih =>
      rcases drain_eq c ht with ⟨hd, hflat⟩ | ⟨b, parts, _, hd, hflat⟩
      swap
      · rw [readFrom_drained s hd]
        refine ⟨drain_length hd, hcount, fun {bytes} hp => ?_⟩
        obtain ⟨owed, howed, rfl⟩ := hp
        refine ⟨parts.flatten ++ owed, ?_, owed, ?_, rfl⟩
        · change _ = (b ++ t.p.drop b.length).take b.length ++ _
          rw [List.take_left, hflat, List.append_assoc]
        · rw [List.any_nil, Bool.or_false]
          exact owes_twin ⟨c.cipher, c.enableXTLS, some parts, rfl⟩ howed
      suffices h : Sound miscounted { c with remainingReader := none } s t (readFrom c s t) by
        refine ⟨h.within, h.counting, fun {bytes} hp => h.rest ?_⟩
        obtain ⟨owed, howed, rfl⟩ := hp
        rw [hflat]
        exact ⟨owed, owes_twin ⟨c.cipher, c.enableXTLS, none, rfl⟩ howed, rfl⟩
      by_cases hdirect : c.directRead = true
      · rcases hr : s.receive .raw t.p.length with ⟨a, s'⟩
        rw [readFrom_direct hd hdirect hr]
        exact direct_sound rfl hdirect hcount hr
      · rcases hr : s.receive c.conn t.size with ⟨a, s'⟩
        refine received_sound hd (Bool.eq_false_iff.mpr hdirect) hr rfl hcount hc
          fun hshown miscounted' c2 hcount2 hc2 => ?_
        have hfill := Target.length_fill (receive_length hr)
        exact ih s'.left (hn ▸ Source.left_receive t.size_pos hr hshown) miscounted' c2 s'
          (by rwa [hfill]) hcount2 hc2 rfl

/-! ## Connections without errors -/

/-- Results of at least one byte and no errors. -/
def results (chunks : List Chunk) : List Arrival := chunks.map fun chunk => { bytes := chunk.val }

def ofNetwork (n : Network) : Source where
  inner := results n.inner
  raw := results n.raw

/-- What the buffer takes and what it leaves is the same either way. -/
theorem result_left (put : List Arrival → Source) (chunk : Chunk) (rest : List Chunk)
    (size : Nat) :
    (if chunk.val.length ≤ size then (({ bytes := chunk.val } : Arrival), put (results rest))
      else (⟨chunk.val.take size, none⟩, put (⟨chunk.val.drop size, none⟩ :: results rest))) =
      (⟨chunk.val.take size, none⟩, put (results (leave (chunk.val.drop size) rest))) := by
  have hleave : results (leave (chunk.val.drop size) rest) =
      if chunk.val.length ≤ size then results rest
      else ⟨chunk.val.drop size, none⟩ :: results rest := by
    unfold leave
    simp only [List.drop_eq_nil_iff]
    split <;> rfl
  rw [hleave]
  split_ifs with hlen
  · rw [List.take_of_length_le hlen]
  · rfl

theorem receive_ofNetwork (n : Network) (wire : Wire) (size : Nat) :
    (ofNetwork n).receive wire size =
      match n.receive wire size with
      | none => (ended, ofNetwork n)
      | some (data, n') => (⟨data, none⟩, ofNetwork n') := by
  obtain ⟨inner, raw⟩ := n
  cases wire with
  | inner =>
      cases inner with
      | nil => rfl
      | cons chunk rest =>
          exact result_left (fun arrivals => ⟨arrivals, results raw⟩) chunk rest size
  | raw =>
      cases raw with
      | nil => rfl
      | cons chunk rest =>
          exact result_left (fun arrivals => ⟨results inner, arrivals⟩) chunk rest size

/-- How an outcome without errors looks with them. -/
structure Alike (o : Vision.Outcome) (o' : Outcome) : Prop where
  after : o'.after = o.after
  source : o'.source = ofNetwork o.network
  result : match o.result with
    | .bytes b => o'.output = b ∧ ∃ n, o'.returned = .ok n none
    | .eof => o'.returned = .ok 0 (some .eof)
    | result => o'.returned = .failed result

/-- The read of the other model is this one where no result carries an error. -/
theorem readFrom_ofNetwork (c : VisionConn) (n : Network) {t : Target} (ht : 0 < t.p.length) :
    Alike (c.read n t) (readFrom c (ofNetwork n) t) := by
  induction hn : n.left using Nat.strong_induction_on generalizing c n t with
  | _ k ih =>
      rcases hd : c.drain t.p.length with ⟨_ | b, c1⟩
      swap
      · rw [read_drained n hd, readFrom_drained _ hd]
        exact ⟨rfl, rfl, List.take_left, _, rfl⟩
      by_cases hdirect : c1.directRead = true
      · have hr := receive_ofNetwork n .raw t.p.length
        rw [VisionConn.read, hd]
        simp only [hdirect, if_true]
        cases hraw : n.receive .raw t.p.length with
        | none =>
            rw [hraw] at hr
            rw [readFrom_direct hd hdirect hr]
            exact ⟨rfl, rfl, rfl⟩
        | some r =>
            rw [hraw] at hr
            rw [readFrom_direct hd hdirect hr]
            exact ⟨rfl, rfl, List.take_left, _, rfl⟩
      have hdirect := Bool.eq_false_iff.mpr hdirect
      have hr := receive_ofNetwork n c1.conn t.size
      cases hinner : n.receive c1.conn t.size with
      | none =>
          rw [hinner] at hr
          rw [read_ended hd hdirect hinner, readFrom_received hd hdirect hr,
            if_pos ⟨rfl, .inr rfl⟩]
          exact ⟨rfl, rfl, rfl⟩
      | some r =>
          obtain ⟨data, n'⟩ := r
          rw [hinner] at hr
          have hread := readFrom_received hd hdirect hr
          rw [if_neg (fun h => Bool.false_ne_true h.1)] at hread
          by_cases hfed : c1.withinPaddingBuffers = true ∨ 0 < c1.numberOfPacketToFilter
          · have hf : feeds c1 = true := by
              rwa [feeds, Bool.or_eq_true, decide_eq_true_iff]
            rw [if_pos hf] at hread
            rcases hfeed : c1.feed (t.slice data) with ⟨_ | result, c2⟩
            · simp only [hfeed] at hread
              have hfill := Target.length_fill (Network.receive_fits t.size_pos hinner).2
              obtain ⟨hafter, hsource, hresult⟩ := ih n'.left
                (hn ▸ left_receive t.size_pos hinner) c2 n' (t := t.fill data)
                (by rwa [hfill]) rfl
              rw [read_fed hd hdirect hinner hfed hfeed, hread]
              exact ⟨hafter, hsource, hresult⟩
            · simp only [hfeed] at hread
              rw [read_failed hd hdirect hinner hfed hfeed, hread]
              rcases (feed_failed hfeed).2 with rfl | ⟨command, rfl⟩ <;> exact ⟨rfl, rfl, rfl⟩
          · have hf : ¬ feeds c1 = true := by
              rwa [feeds, Bool.or_eq_true, decide_eq_true_iff]
            rw [if_neg hf] at hread
            rw [read_passed hd hdirect hinner hfed, hread]
            exact ⟨rfl, rfl, rfl, _, rfl⟩

/-! ## Whole runs -/

theorem cleanFrom_append {miscounted : Bool} {pulls more : List Pull}
    (h : CleanFrom miscounted (pulls ++ more)) :
    CleanFrom miscounted pulls ∧ CleanFrom (miscounted || pulls.any Pull.miscounts) more := by
  induction pulls generalizing miscounted with
  | nil => exact ⟨trivial, by rwa [List.any_nil, Bool.or_false]⟩
  | cons pull rest ih =>
      obtain ⟨hclean, hopen, hrest⟩ := h
      obtain ⟨hfront, hback⟩ := ih hrest
      exact ⟨⟨hclean, hopen, hfront⟩, by rwa [List.any_cons, ← Bool.or_assoc]⟩

theorem pends_drained {miscounted : Bool} {r : VisionConn × Source} (h : Drained r)
    {bytes : Bytes} (hp : Pends miscounted r.1 r.2 bytes) : bytes = [] := by
  obtain ⟨owed, howed, rfl⟩ := hp
  rw [h.1, List.nil_append]
  cases miscounted with
  | false => exact howed.trans (stream_nil h.2)
  | true =>
      cases hdirect : r.1.directRead with
      | true => exact (howed.direct hdirect).trans (stream_nil h.2)
      | false => exact howed.nothing hdirect h.2

/-- A clean run returns the front of what is pending. -/
theorem readAll_sound {miscounted : Bool} {c : VisionConn} {s : Source} {targets : List Target}
    (hroom : ∀ t ∈ targets, 0 < t.p.length)
    (hcount : Counting c.remainingContent c.remainingPadding)
    (hclean : CleanFrom miscounted ((readAll c s targets).flatMap Outcome.pulls)) :
    Fits c s targets ∧ ∀ {bytes}, Pends miscounted c s bytes →
      ∃ more miscounted', bytes = output (readAll c s targets) ++ more ∧
        Pends miscounted' (endOf c s targets).1 (endOf c s targets).2 more := by
  induction targets generalizing miscounted c s with
  | nil => exact ⟨.nil, fun {bytes} hp => ⟨bytes, miscounted, rfl, hp⟩⟩
  | cons t rest ih =>
      rw [List.forall_mem_cons] at hroom
      rw [readAll, List.flatMap_cons] at hclean
      obtain ⟨hfirst, hlater⟩ := cleanFrom_append hclean
      obtain ⟨hwithin, hafter, hrest⟩ := readFrom_sound miscounted c s hroom.1 hcount hfirst
      obtain ⟨hfits, hrun⟩ := ih hroom.2 hafter hlater
      refine ⟨.cons hwithin hfits, fun {bytes} hp => ?_⟩
      obtain ⟨more, rfl, hmore⟩ := hrest hp
      obtain ⟨more', miscounted', rfl, hmore'⟩ := hrun hmore
      refine ⟨more', miscounted', ?_, hmore'⟩
      rw [readAll, output, output, List.flatMap_cons, List.append_assoc]

/-! ## A stream in one result -/

/-- A stream with one byte in a frame and one behind it, in one result. -/
def whole (error : Option Go.Error) : Source := { inner := [⟨sample.bytes, error⟩] }

/-- A buffer of one byte. -/
def narrow : Target := { p := [0] }

theorem whole_fits (t : Target) : sample.bytes.length ≤ t.size := by
  have hlen : sample.bytes.length = 23 := rfl
  rw [Target.size, xrayChunkSize]
  split <;> omega

theorem whole_received (error : Option Go.Error) (t : Target) :
    (whole error).receive .inner t.size = (⟨sample.bytes, error⟩, {}) :=
  if_pos (whole_fits t)

/-- The content is returned when the result comes without an error, or to a small buffer. -/
theorem read_whole {error : Option Go.Error} {t : Target} (ht : 0 < t.p.length)
    (h : error = none ∨ ¬ xrayChunkSize < t.p.length) :
    (readFrom (newVisionConn sample.uuid [] []) (whole error) t).pulls =
        [⟨newVisionConn sample.uuid [] [], t, ⟨sample.bytes, error⟩⟩] ∧
      ∃ rest, (readFrom (newVisionConn sample.uuid [] []) (whole error) t).output =
        0x48 :: rest := by
  have hd : (newVisionConn sample.uuid [] []).drain t.p.length =
      (none, newVisionConn sample.uuid [] []) := rfl
  obtain ⟨behind, hslice⟩ := slice_behind t sample.bytes
  have hphase : VisionFrames.Phase (newVisionConn sample.uuid [] []).reader (sample.bytes ++ [])
      sample.payload := by
    rw [List.append_nil]
    exact .fresh sample rfl rfl rfl rfl
  obtain ⟨c', parts, payload', hf, hparts, hpay, hphase', _, _⟩ :=
    VisionFrames.feed_clean hphase (VisionFrames.sample_clean behind) (Or.inl rfl)
  rw [VisionFrames.payload_of_end hphase', List.append_nil] at hpay
  have hend : ¬ (error.isSome = true ∧ (xrayChunkSize < t.p.length ∨ sample.bytes = [])) := by
    rintro ⟨herror, hlarge | hnil⟩
    · rcases h with rfl | h
      · cases herror
      · exact h hlarge
    · cases hnil
  have hread := readFrom_received hd rfl (whole_received error t)
  rw [if_neg hend, if_pos (show feeds (newVisionConn sample.uuid [] []) = true from rfl), hslice]
    at hread
  simp only [hf] at hread
  rw [hread]
  have hlen : (t.fill sample.bytes).p.length = t.p.length := Target.length_fill (whole_fits t)
  rcases drain_eq c' (hlen.symm ▸ ht) with ⟨_, hflat⟩ | ⟨b, ps, hne, hd', hflat⟩
  · rw [hparts, Option.getD_some, ← hpay] at hflat
    cases hflat
  · rw [hparts, Option.getD_some, ← hpay] at hflat
    rw [readFrom_drained _ hd']
    refine ⟨rfl, ?_⟩
    change ∃ rest, (b ++ _).take b.length = _
    rw [List.take_left]
    cases b with
    | nil => exact absurd rfl hne
    | cons x rest => exact ⟨rest, by rw [(List.cons.inj hflat).1]⟩

/-- A large buffer gets the padding as well when the result comes with an error. -/
theorem read_padded {t : Target} (ht : xrayChunkSize < t.p.length) :
    (readFrom (newVisionConn sample.uuid [] []) (whole (some .eof)) t).output =
      sample.bytes := by
  have hd : (newVisionConn sample.uuid [] []).drain t.p.length =
      (none, newVisionConn sample.uuid [] []) := rfl
  rw [readFrom_received hd rfl (whole_received _ t), if_pos ⟨rfl, .inl ht⟩]
  exact take_fill fun _ => ht

theorem whole_clean {error : Option Go.Error} {t : Target} (ht : 0 < t.p.length)
    (h : error = none ∨ ¬ xrayChunkSize < t.p.length) :
    CleanRun (newVisionConn sample.uuid [] []) (whole error) [t] := by
  have hpulls : (readAll (newVisionConn sample.uuid [] []) (whole error) [t]).flatMap
      Outcome.pulls = [⟨newVisionConn sample.uuid [] [], t, ⟨sample.bytes, error⟩⟩] := by
    rw [readAll, readAll, List.flatMap_singleton]
    exact (read_whole ht h).1
  have hreceived : Pull.received ⟨newVisionConn sample.uuid [] [], t, ⟨sample.bytes, error⟩⟩ =
      ⟨sample.bytes, error⟩ := if_pos (whole_fits t)
  refine ⟨by simpa using ht, .inl ⟨rfl, rfl⟩, ?_⟩
  rw [hpulls]
  refine ⟨⟨fun _ => .inl (whole_fits t), (fun hf => by cases hf), fun _ hearly hne => ?_,
    fun _ => ?_⟩, (fun hm => by cases hm), trivial⟩
  · rw [Pull.early, hreceived, Bool.and_eq_true, Bool.or_eq_true, decide_eq_true_eq,
      decide_eq_true_eq] at hearly
    rw [hreceived] at hne
    rcases h with rfl | hsmall
    · cases hearly.1
    · exact absurd (hearly.2.resolve_right hne) hsmall
  · obtain ⟨behind, hslice⟩ := slice_behind t sample.bytes
    rw [hreceived]
    dsimp only
    rw [hslice]
    exact (VisionFrames.sample_clean behind).fits

/-! ## Any two runs -/

/-- The size of the buffers does not show in clean runs. -/
theorem read_any_size (c : VisionConn) (s : Source) (targets targets' : List Target)
    (h : CleanRun c s targets) (h' : CleanRun c s targets') : SameStream c s targets targets' := by
  obtain ⟨hfits, hrun⟩ := readAll_sound h.room h.counting h.clean
  obtain ⟨hfits', hrun'⟩ := readAll_sound h'.room h'.counting h'.clean
  have hpends : Pends false c s ((c.remainingReader.getD []).flatten ++ stream c s) :=
    ⟨_, rfl, rfl⟩
  obtain ⟨more, _, hbytes, hmore⟩ := hrun hpends
  obtain ⟨more', _, hbytes', hmore'⟩ := hrun' hpends
  refine ⟨⟨hfits, hfits'⟩, ?_, fun hd hd' => ?_⟩
  · exact List.prefix_or_prefix_of_prefix ⟨more, hbytes.symm⟩ ⟨more', hbytes'.symm⟩
  · rw [pends_drained hd hmore, List.append_nil] at hbytes
    rw [pends_drained hd' hmore', List.append_nil] at hbytes'
    rw [← hbytes, hbytes']

theorem narrow_and_roomy : SameStream (newVisionConn sample.uuid [] []) (whole none) [narrow]
    [roomy] :=
  read_any_size _ _ _ _ (whole_clean (by decide) (.inl rfl))
    (whole_clean (Nat.zero_lt_of_lt roomy_large) (.inl rfl))

/-- When the stream ends with its only result, a large buffer gets it with the padding. -/
theorem padded_at_end :
    ¬ ∀ (uuid : UUID) (input rawIn : Bytes) (s : Source) (targets targets' : List Target),
      (∀ t ∈ targets ++ targets', 0 < t.p.length) →
        SameStream (newVisionConn uuid input rawIn) s targets targets' := by
  intro h
  have hroom : ∀ t ∈ [roomy] ++ [narrow], 0 < t.p.length := by
    simp only [List.singleton_append, List.forall_mem_cons]
    exact ⟨Nat.zero_lt_of_lt roomy_large, by decide, nofun⟩
  have hsame := (h sample.uuid [] [] (whole (some .eof)) [roomy] [narrow] hroom).comparable
  obtain ⟨-, rest, hnarrow⟩ :=
    @read_whole (some .eof) narrow (by decide) (.inr (by decide))
  have hroomy := read_padded roomy_large
  simp only [readAll, output, List.flatMap_cons, List.flatMap_nil, List.append_nil,
    hroomy, hnarrow] at hsame
  rcases hsame with hpre | hpre
  · obtain ⟨hhead, -⟩ := List.cons_prefix_cons.mp (show (7 : UInt8) :: _ <+: 0x48 :: rest from hpre)
    exact absurd hhead (by decide)
  · obtain ⟨hhead, -⟩ := List.cons_prefix_cons.mp (show 0x48 :: rest <+: (7 : UInt8) :: _ from hpre)
    exact absurd hhead (by decide)

end DshClashProxy.Core.VisionReads
