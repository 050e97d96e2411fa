import DshClashProxy.Core.VisionTwins
import DshClashProxy.Go.Reader

/-!
# The stream of a connection's results

What the results of the connections add to the stream, one after another, when each is read whole,
and what is left of it when some are cut in two. The filter counts the pieces, so behind a cut the
reader goes on abreast of the one that has read the whole, with another count: both add the same
as long as no padded stream starts again.
-/
namespace DshClashProxy.Core.VisionStream

open Js Vision
open VisionDirections (Counting Framed core settleCore framed_settleCore unPadding_uniform)
open VisionCuts
open VisionTwins

/-! ## Connections -/

/-- A result of a connection's `Read`; an error may come with bytes. -/
structure Arrival where
  bytes : Bytes
  error : Option Go.Error := none

/-- What a connection returns when it has ended. -/
def ended : Arrival := ⟨[], some .eof⟩

/-- The results that the two connections are going to return. -/
structure Source where
  inner : List Arrival := []
  raw : List Arrival := []

namespace Source

def on (s : Source) : Wire → List Arrival
  | .inner => s.inner
  | .raw => s.raw

def set (s : Source) (wire : Wire) (rest : List Arrival) : Source :=
  match wire with
  | .inner => { s with inner := rest }
  | .raw => { s with raw := rest }

/-- One read of a connection. What the buffer does not take stays in front, with its error. -/
def receive (s : Source) (wire : Wire) (size : Nat) : Arrival × Source :=
  match s.on wire with
  | [] => (ended, s)
  | a :: rest =>
      if a.bytes.length ≤ size then (a, s.set wire rest)
      else (⟨a.bytes.take size, none⟩, s.set wire (⟨a.bytes.drop size, a.error⟩ :: rest))

/-- Results still to come, and their bytes. -/
def weight : List Arrival → Nat
  | [] => 0
  | a :: rest => a.bytes.length + 1 + weight rest

def left (s : Source) : Nat := weight s.inner + weight s.raw

theorem left_set (s : Source) (wire : Wire) (rest : List Arrival) :
    (s.set wire rest).left + weight (s.on wire) = s.left + weight rest := by
  cases wire <;> simp only [set, left, on] <;> omega

theorem weight_cons (a : Arrival) (rest : List Arrival) :
    weight (a :: rest) = a.bytes.length + 1 + weight rest := rfl

/-- Every read makes the source smaller, unless it has ended. -/
theorem left_receive {s s' : Source} {wire : Wire} {size : Nat} {a : Arrival} (hs : 0 < size)
    (h : s.receive wire size = (a, s')) (ha : ¬ (a.error.isSome = true ∧ a.bytes = [])) :
    s'.left < s.left := by
  unfold receive at h
  split at h
  · cases h
    exact absurd ⟨rfl, rfl⟩ ha
  · next b rest hb =>
      split at h
      · cases h
        have hset := s.left_set wire rest
        rw [hb, weight_cons] at hset
        omega
      · next hlong =>
          cases h
          have hset := s.left_set wire (⟨b.bytes.drop size, b.error⟩ :: rest)
          rw [hb, weight_cons, weight_cons, List.length_drop] at hset
          omega

end Source

/-! ## The stream -/

/-- The connection that the next read of the source takes from. -/
def wire (c : VisionConn) : Wire := if c.directRead then .raw else c.conn

/-- The buffer is unpadded or filtered. -/
def feeds (c : VisionConn) : Bool := c.withinPaddingBuffers || 0 < c.numberOfPacketToFilter

/-- What a result adds to the stream, and the state behind it. -/
def absorb (c : VisionConn) (a : Arrival) : Bytes × VisionConn :=
  if c.directRead then (a.bytes, c)
  else if a.error.isSome ∧ a.bytes = [] then ([], c)
  else if feeds c then
    match c.feed ⟨a.bytes, spacious⟩ with
    | (some _, c) => ([], c)
    | (none, c) => ((c.remainingReader.getD []).flatten, c)
  else (a.bytes, c)

theorem absorb_forward (c : VisionConn) (a : Arrival) :
    VisionDirections.Forward c (absorb c a).2 := by
  unfold absorb
  split_ifs
  · exact .refl c
  · exact .refl c
  · have hforward := VisionDirections.feed_forward c ⟨a.bytes, spacious⟩
    rcases hf : c.feed ⟨a.bytes, spacious⟩ with ⟨_ | _, c'⟩ <;> rwa [hf] at hforward
  · exact .refl c

theorem absorb_twin {c d : VisionConn} (h : Twin c d) (a : Arrival) :
    (absorb c a).1 = (absorb d a).1 ∧ Twin (absorb c a).2 (absorb d a).2 := by
  have hdirect : d.directRead = c.directRead := by
    obtain ⟨_, _, _, rfl⟩ := h
    rfl
  have hfeeds : feeds d = feeds c := by
    obtain ⟨_, _, _, rfl⟩ := h
    rfl
  unfold absorb
  rw [hdirect, hfeeds]
  split_ifs
  · exact ⟨rfl, h⟩
  · exact ⟨rfl, h⟩
  · rcases feed_twin h (b := a.bytes) (fun _ => unPadding_spacious c a.bytes)
      (fun _ => unPadding_spacious d a.bytes) with
      ⟨_, c', d', hc, hd, htwin⟩ | ⟨_, c', d', hc, hd, htwin, hparts, hparts'⟩
    · simp only [hc, hd]
      exact ⟨trivial, htwin⟩
    · simp only [hc, hd, hparts, hparts']
      exact ⟨trivial, htwin⟩
  · exact ⟨rfl, h⟩

theorem absorb_direct {c : VisionConn} (h : c.directRead = true) (a : Arrival) :
    absorb c a = (a.bytes, c) := by
  rw [absorb, if_pos h]

/-- An error without bytes adds nothing. -/
theorem absorb_ended {c : VisionConn} {a : Arrival} (h : c.directRead = false)
    (ha : a.error.isSome = true ∧ a.bytes = []) : absorb c a = ([], c) := by
  rw [absorb, if_neg (by rw [h]; decide), if_pos ha]

theorem absorb_passed {c : VisionConn} (h : c.directRead = false) (hf : feeds c = false)
    (a : Arrival) : absorb c a = (a.bytes, c) := by
  rw [absorb, if_neg (by rw [h]; decide), if_neg (c := feeds c = true) (by rw [hf]; decide)]
  split_ifs with hend
  · rw [hend.2]
  · rfl

/-- What the source adds to the stream when every result is read whole. -/
def stream (c : VisionConn) (s : Source) : Bytes :=
  match _h : s.on (wire c) with
  | [] => []
  | a :: rest => (absorb c a).1 ++ stream (absorb c a).2 (s.set (wire c) rest)
termination_by s.left
decreasing_by
  have hset := s.left_set (wire c) rest
  rw [_h, Source.weight_cons] at hset
  omega

theorem stream_nil {c : VisionConn} {s : Source} (h : s.on (wire c) = []) : stream c s = [] := by
  rw [stream]
  split
  · rfl
  · next hcons => rw [h] at hcons; cases hcons

theorem stream_cons {c : VisionConn} {s : Source} {a : Arrival} {rest : List Arrival}
    (h : s.on (wire c) = a :: rest) :
    stream c s = (absorb c a).1 ++ stream (absorb c a).2 (s.set (wire c) rest) := by
  rw [stream]
  split
  · next hnil => rw [h] at hnil; cases hnil
  · next hcons =>
      obtain ⟨rfl, rfl⟩ := List.cons.inj (h.symm.trans hcons)
      rfl

theorem stream_twin {c d : VisionConn} (h : Twin c d) (s : Source) : stream c s = stream d s := by
  induction hn : s.left using Nat.strong_induction_on generalizing c d s with
  | _ n ih =>
      have hwire : wire d = wire c := by
        obtain ⟨_, _, _, rfl⟩ := h
        rfl
      cases hs : s.on (wire c) with
      | nil => rw [stream_nil hs, stream_nil (hwire.symm ▸ hs)]
      | cons a rest =>
          obtain ⟨hbytes, htwin⟩ := absorb_twin h a
          have hset := s.left_set (wire c) rest
          rw [hs, Source.weight_cons] at hset
          rw [stream_cons hs, stream_cons (c := d) (hwire.symm ▸ hs), hwire, hbytes,
            ih _ (by omega) htwin _ rfl]

/-! ## Whatever the filter has counted -/

/-- The content of a buffer with what settling adds; nothing where it fails. -/
def gained (settled : Option (List Slice)) (content : Bytes) : Bytes :=
  match settled with
  | none => []
  | some extra => content ++ (extra.map Slice.bytes).flatten

theorem absorb_fed {c : VisionConn} {a : Arrival} (hdirect : c.directRead = false)
    (hshown : ¬ (a.error.isSome = true ∧ a.bytes = [])) (hf : feeds c = true) :
    absorb c a = match c.feed ⟨a.bytes, spacious⟩ with
      | (some _, c) => ([], c)
      | (none, c) => ((c.remainingReader.getD []).flatten, c) := by
  rw [absorb, if_neg (by rw [hdirect]; decide), if_neg hshown, if_pos hf]

/-- What a buffer adds turns on its content and on what the flags are settled to. -/
theorem absorb_settled {c : VisionConn} {a : Arrival} (hdirect : c.directRead = false)
    (hshown : ¬ (a.error.isSome = true ∧ a.bytes = [])) (hf : feeds c = true)
    {content : Bytes} {d : VisionConn}
    (hcontent : ((c.unPadding ⟨a.bytes, spacious⟩).1.map Slice.bytes).flatten = content)
    (hd : (c.unPadding ⟨a.bytes, spacious⟩).2 = d) :
    (absorb c a).1 = gained (settleCore (core d) []).1 content ∧
      core (absorb c a).2 = (settleCore (core d) []).2 ∧ (absorb c a).2.conn = c.conn := by
  have hconn := (absorb_forward c a).conn
  have hspacious := unPadding_spacious c a.bytes
  refine ⟨?_, ?_, hconn⟩ <;> rw [absorb_fed hdirect hshown hf, VisionConn.feed]
  all_goals
    generalize c.unPadding ⟨a.bytes, spacious⟩ = r at hcontent hd hspacious ⊢
    obtain ⟨buffers, c1⟩ := r
    subst hcontent hd
    obtain ⟨hsettled, hcore, -, -⟩ := VisionDirections.settle_core c1 buffers
    have hfits : ∀ bs, (c1.settle buffers).1 = some bs → ∀ s ∈ bs, ¬ Overruns s := fun bs hbs =>
      settle_fits hbs hspacious
    rw [settleCore_append] at hsettled hcore
    dsimp only
    rcases hs : c1.settle buffers with ⟨_ | bs, c2⟩
  · rw [hs] at hsettled
    rw [Option.map_eq_none_iff.mp hsettled.symm]
    rfl
  · rw [hs] at hsettled hfits
    obtain ⟨extra, hextra, hbs⟩ := Option.map_eq_some_iff.mp hsettled.symm
    obtain ⟨c3, hfilter⟩ := filterAll_isSome c2 bs fun _ => hfits bs rfl
    dsimp only
    rw [hfilter, hextra, ← hbs]
    simp only [gained, Option.getD_some, List.map_append, List.flatten_append]
  · rw [hs] at hcore
    exact hcore
  · rw [hs] at hfits hcore
    obtain ⟨c3, hfilter⟩ := filterAll_isSome c2 bs fun _ => hfits bs rfl
    dsimp only
    rw [hfilter]
    exact (VisionDirections.core_same (filterAll_same hfilter).1).trans hcore

/-- A result without frames adds its bytes, whether it goes through the filter or not. -/
theorem absorb_plain {c : VisionConn} {a : Arrival} (hdirect : c.directRead = false)
    (hp : plain c a.bytes = true) :
    (absorb c a).1 = a.bytes ∧ (absorb c a).2.directRead = false ∧
      (absorb c a).2.frameless = true ∧ (absorb c a).2.userUUID = c.userUUID := by
  have hframeless : c.frameless = true := by
    rw [plain, Bool.and_eq_true] at hp
    exact hp.1
  by_cases hshown : a.error.isSome = true ∧ a.bytes = []
  · rw [absorb_ended hdirect hshown, hshown.2]
    exact ⟨rfl, hdirect, hframeless, rfl⟩
  by_cases hf : feeds c = true
  · have hunpad := plain_unPadding hp spacious
    have hcontent : ((c.unPadding ⟨a.bytes, spacious⟩).1.map Slice.bytes).flatten = a.bytes := by
      rw [hunpad]
      exact List.append_nil a.bytes
    obtain ⟨hbytes, hcore, -⟩ :=
      absorb_settled hdirect hshown hf hcontent (congrArg Prod.snd hunpad)
    have hcounters : c.remainingContent = -1 ∧ c.remainingPadding = -1 := by
      simpa only [VisionConn.frameless, Bool.and_eq_true, decide_eq_true_eq] using hframeless
    have hsettle : settleCore (core c) [] =
        (some [], { core c with
          withinPaddingBuffers := false, remainingContent := -1, remainingPadding := -1 }) := by
      rw [settleCore, show (core c).remainingContent = -1 from hcounters.1,
        show (core c).remainingPadding = -1 from hcounters.2, if_neg (by decide),
        if_neg (by decide)]
    rw [hsettle] at hbytes hcore
    refine ⟨hbytes.trans (List.append_nil _), ?_, ?_, ?_⟩
    · exact (congrArg Reader.directRead hcore).trans hdirect
    · have hcontent : (absorb c a).2.remainingContent = -1 :=
        congrArg Reader.remainingContent hcore
      have hpadding : (absorb c a).2.remainingPadding = -1 :=
        congrArg Reader.remainingPadding hcore
      rw [VisionConn.frameless, hcontent, hpadding]
      rfl
    · exact congrArg Reader.userUUID hcore
  · rw [absorb_passed hdirect (Bool.eq_false_iff.mpr hf)]
    exact ⟨rfl, hdirect, hframeless, rfl⟩

/-- Two readers at one point of the stream, whatever their filters have counted: outside the frames,
or with the same flags. -/
structure Abreast (c d : VisionConn) : Prop where
  user : d.userUUID = c.userUUID
  conn : d.conn = c.conn
  direct : d.directRead = c.directRead
  mode : c.directRead = false → c.frameless = true ∧ d.frameless = true ∨
    core d = core c ∧ c.withinPaddingBuffers = true ∧
      Counting c.remainingContent c.remainingPadding

theorem frameless_core {c d : VisionConn} (h : core d = core c) : d.frameless = c.frameless := by
  have hcontent : d.remainingContent = c.remainingContent := congrArg Reader.remainingContent h
  have hpadding : d.remainingPadding = c.remainingPadding := congrArg Reader.remainingPadding h
  rw [VisionConn.frameless, VisionConn.frameless, hcontent, hpadding]

theorem Abreast.of_core {c d : VisionConn} (h : core d = core c) (hconn : d.conn = c.conn)
    (hframed : Framed (core c)) : Abreast c d where
  user := congrArg Reader.userUUID h
  conn := hconn
  direct := congrArg Reader.directRead h
  mode hdirect := by
    cases hw : c.withinPaddingBuffers with
    | true => exact .inr ⟨h, rfl, hframed.counting⟩
    | false =>
        obtain ⟨hcontent, hpadding⟩ := hframed.outside hw hdirect
        have hframeless : c.frameless = true := by
          rw [VisionConn.frameless, show c.remainingContent = -1 from hcontent,
            show c.remainingPadding = -1 from hpadding]
          rfl
        exact .inl ⟨hframeless, (frameless_core h).trans hframeless⟩

theorem Abreast.trans {c d e : VisionConn} (h : Abreast c d) (h' : Abreast d e) : Abreast c e where
  user := h'.user.trans h.user
  conn := h'.conn.trans h.conn
  direct := h'.direct.trans h.direct
  mode hdirect := by
    rcases h.mode hdirect with ⟨hc, hd⟩ | ⟨hcore, hw, hcount⟩
    · rcases h'.mode (h.direct.trans hdirect) with ⟨-, he⟩ | ⟨hcore, -, -⟩
      · exact .inl ⟨hc, he⟩
      · exact .inl ⟨hc, (frameless_core hcore).trans hd⟩
    · rcases h'.mode (h.direct.trans hdirect) with ⟨hd, he⟩ | ⟨hcore', -, -⟩
      · exact .inl ⟨(frameless_core hcore).symm.trans hd, he⟩
      · exact .inr ⟨hcore'.trans hcore, hw, hcount⟩

theorem Abreast.wire {c d : VisionConn} (h : Abreast c d) : wire d = wire c := by
  rw [VisionStream.wire, VisionStream.wire, h.direct, h.conn]

theorem Abreast.announced {c d : VisionConn} (h : Abreast c d) (hdirect : c.directRead = false)
    (b : Bytes) : d.announced b = c.announced b := by
  have hframeless : d.frameless = c.frameless := by
    rcases h.mode hdirect with ⟨hc, hd⟩ | ⟨hcore, -, -⟩
    · rw [hc, hd]
    · exact frameless_core hcore
  rw [VisionConn.announced, VisionConn.announced, hframeless, h.user]

/-- Where no padded stream starts, a result adds the same on both. -/
theorem absorb_abreast {c d : VisionConn} (h : Abreast c d) {a : Arrival}
    (hopen : c.directRead = false → c.announced a.bytes = false) :
    (absorb c a).1 = (absorb d a).1 ∧ Abreast (absorb c a).2 (absorb d a).2 := by
  by_cases hdirect : c.directRead = true
  · rw [absorb_direct hdirect, absorb_direct (h.direct.trans hdirect)]
    exact ⟨rfl, h⟩
  have hdirect := Bool.eq_false_iff.mpr hdirect
  have hdirect' := h.direct.trans hdirect
  rcases h.mode hdirect with ⟨hc, hd⟩ | ⟨hcore, hw, hcount⟩
  · have hannounced := h.announced hdirect a.bytes
    have hplain : plain c a.bytes = true := by rw [plain, hc, hopen hdirect]; rfl
    have hplain' : plain d a.bytes = true := by rw [plain, hd, hannounced, hopen hdirect]; rfl
    obtain ⟨hbytes, hdir, hfr, huser⟩ := absorb_plain hdirect hplain
    obtain ⟨hbytes', hdir', hfr', huser'⟩ := absorb_plain hdirect' hplain'
    refine ⟨hbytes.trans hbytes'.symm, huser'.trans (h.user.trans huser.symm), ?_,
      hdir'.trans hdir.symm, fun _ => .inl ⟨hfr, hfr'⟩⟩
    rw [(absorb_forward d a).conn, (absorb_forward c a).conn, h.conn]
  · have hw' : d.withinPaddingBuffers = true :=
      (congrArg Reader.withinPaddingBuffers hcore).trans hw
    have hf : feeds c = true := by rw [feeds, hw, Bool.true_or]
    have hf' : feeds d = true := by rw [feeds, hw', Bool.true_or]
    by_cases hshown : a.error.isSome = true ∧ a.bytes = []
    · rw [absorb_ended hdirect hshown, absorb_ended hdirect' hshown]
      exact ⟨rfl, h⟩
    obtain ⟨buffers, content', padding', command', hcount', hunpad⟩ :=
      unPadding_uniform (core c) hcount ⟨a.bytes, spacious⟩
    obtain ⟨hbytes, hcore1, hconn1⟩ := absorb_settled hdirect hshown hf
      (congrArg (fun r => (r.1.map Slice.bytes).flatten) (hunpad c rfl))
      (congrArg Prod.snd (hunpad c rfl))
    obtain ⟨hbytes', hcore1', hconn1'⟩ := absorb_settled hdirect' hshown hf'
      (congrArg (fun r => (r.1.map Slice.bytes).flatten) (hunpad d hcore))
      (congrArg Prod.snd (hunpad d hcore))
    have hsame : core { d with remainingContent := content', remainingPadding := padding',
                               currentCommand := command' } =
        core { c with remainingContent := content', remainingPadding := padding',
                      currentCommand := command' } :=
      congrArg (fun r : Reader => { r with
        remainingContent := content', remainingPadding := padding',
        currentCommand := command' }) hcore
    rw [hsame] at hbytes' hcore1'
    refine ⟨hbytes.trans hbytes'.symm, .of_core (hcore1'.trans hcore1.symm) ?_ ?_⟩
    · rw [hconn1', hconn1, h.conn]
    · rw [hcore1]
      exact framed_settleCore hcount' hw []

/-! ## A result in two pieces -/

theorem gained_append {settled : Option (List Slice)} (h : settled ≠ none) (front back : Bytes) :
    gained settled (front ++ back) = front ++ gained settled back := by
  cases settled with
  | none => exact absurd rfl h
  | some extra => exact List.append_assoc front back _

/-- Cut after so many bytes, a result adds the same to the stream, unless a padded stream starts
where it is cut. -/
structure Parted (c : VisionConn) (a : Arrival) (k : Nat) : Prop where
  direct : (absorb c ⟨a.bytes.take k, none⟩).2.directRead = false
  outside : (absorb c ⟨a.bytes.take k, none⟩).2.withinPaddingBuffers = false →
    (absorb c ⟨a.bytes.take k, none⟩).2.frameless = true
  rest : ∃ content, (absorb c a).1 = (absorb c ⟨a.bytes.take k, none⟩).1 ++ content ∧
    ((absorb c ⟨a.bytes.take k, none⟩).2.announced (a.bytes.drop k) = false →
      (absorb (absorb c ⟨a.bytes.take k, none⟩).2 ⟨a.bytes.drop k, a.error⟩).1 = content ∧
      Abreast (absorb (absorb c ⟨a.bytes.take k, none⟩).2 ⟨a.bytes.drop k, a.error⟩).2
        (absorb c a).2)

section
variable {c : VisionConn} {a : Arrival} {k : Nat}

/-- Behind a cut with no frame open the rest comes as it is. -/
theorem parted_frameless (hdir : (absorb c ⟨a.bytes.take k, none⟩).2.directRead = false)
    (hfr : (absorb c ⟨a.bytes.take k, none⟩).2.frameless = true)
    (hdir' : (absorb c a).2.directRead = false) (hfr' : (absorb c a).2.frameless = true)
    (huser : (absorb c a).2.userUUID = (absorb c ⟨a.bytes.take k, none⟩).2.userUUID)
    (hwhole : (absorb c a).1 = (absorb c ⟨a.bytes.take k, none⟩).1 ++ a.bytes.drop k) :
    Parted c a k := by
  refine ⟨hdir, fun _ => hfr, a.bytes.drop k, hwhole, fun hopen => ?_⟩
  have hback : plain (absorb c ⟨a.bytes.take k, none⟩).2 (a.bytes.drop k) = true := by
    rw [plain, hfr, hopen]
    rfl
  obtain ⟨hbytes, hdir'', hfr'', huser''⟩ :=
    absorb_plain (a := ⟨a.bytes.drop k, a.error⟩) hdir hback
  refine ⟨hbytes, huser.trans huser''.symm, ?_, hdir'.trans hdir''.symm,
    fun _ => .inl ⟨hfr'', hfr'⟩⟩
  rw [(absorb_forward _ _).conn, (absorb_forward _ _).conn, (absorb_forward _ _).conn]

theorem parted_plain (hdirect : c.directRead = false) (hk : 21 ≤ k) (hlen : k < a.bytes.length)
    (hp : plain c a.bytes = true) : Parted c a k := by
  have hp' : plain c (a.bytes.take k) = true := (plain_take c a.bytes hk hlen.le).trans hp
  obtain ⟨hbytes, hdir, hfr, huser⟩ :=
    absorb_plain (a := ⟨a.bytes.take k, none⟩) hdirect hp'
  obtain ⟨hbytes', hdir', hfr', huser'⟩ := absorb_plain hdirect hp
  refine parted_frameless hdir hfr hdir' hfr' (huser'.trans huser.symm) ?_
  rw [hbytes, hbytes', List.take_append_drop]

/-- A cut inside the frames: the reader goes on where it was. -/
theorem parted_inside (hdirect : c.directRead = false) (hlen : k < a.bytes.length)
    {front back : Bytes} {content padding : Nat} {command : UInt8} {d : VisionConn}
    (hfront : (absorb c ⟨a.bytes.take k, none⟩).1 = front)
    (hcore : core (absorb c ⟨a.bytes.take k, none⟩).2 =
      { core (inFrame c content padding command) with withinPaddingBuffers := true })
    (hback : strip (inFrame c content padding command) (a.bytes.drop k) = (back, d))
    (hknown : (settleCore (core d) []).1 ≠ none)
    (hwhole : (absorb c a).1 = gained (settleCore (core d) []).1 (front ++ back))
    (hwhole' : core (absorb c a).2 = (settleCore (core d) []).2) : Parted c a k := by
  have hconn : (absorb c ⟨a.bytes.take k, none⟩).2.conn = c.conn := (absorb_forward _ _).conn
  obtain ⟨front', c1, hr⟩ : ∃ front' c1, absorb c ⟨a.bytes.take k, none⟩ = (front', c1) :=
    ⟨_, _, rfl⟩
  rw [hr] at hfront hcore hconn
  obtain rfl : front' = front := hfront
  have hw : c1.withinPaddingBuffers = true := congrArg Reader.withinPaddingBuffers hcore
  have hdirect' : c1.directRead = false := (congrArg Reader.directRead hcore).trans hdirect
  have hcontent : c1.remainingContent = content := congrArg Reader.remainingContent hcore
  have hpadding : c1.remainingPadding = padding := congrArg Reader.remainingPadding hcore
  have hcommand : c1.currentCommand = command := congrArg Reader.currentCommand hcore
  have hstate : inFrame c1 content padding command = c1 := by
    rw [inFrame, ← hcontent, ← hpadding, ← hcommand]
  have hfr : c1.frameless = false := by
    have hne : ¬ (content : Int) = -1 := by omega
    rw [VisionConn.frameless, hcontent, decide_eq_false hne, Bool.false_and]
  have hannounced : c1.announced (a.bytes.drop k) = false := by
    rw [VisionConn.announced, hfr, Bool.false_and, Bool.false_and]
  refine ⟨by rwa [hr], fun h => ?_, gained (settleCore (core d) []).1 back, ?_, fun _ => ?_⟩
  · rw [hr] at h
    exact absurd (hw.symm.trans h) (by decide)
  · rw [hr, hwhole, gained_append hknown]
  rw [hr]
  obtain ⟨bytes, content', padding', command', huniform⟩ :=
    strip_uniform content padding command (a.bytes.drop k)
  obtain ⟨rfl, rfl⟩ := Prod.mk.inj ((huniform c).symm.trans hback)
  have hstrip : strip c1 (a.bytes.drop k) = (bytes, inFrame c1 content' padding' command') := by
    have h1 := huniform c1
    rwa [hstate] at h1
  have hunpad : c1.unPadding ⟨a.bytes.drop k, spacious⟩ =
      c1.unPaddingLoop spacious (a.bytes.drop k) := by
    rw [VisionConn.unPadding, if_neg (by rw [hannounced]; decide), if_neg (by rw [hfr]; decide)]
  obtain ⟨hloop, hloop'⟩ := unPaddingLoop_strip c1 spacious (a.bytes.drop k)
  have hnil : a.bytes.drop k ≠ [] := by
    rw [Ne, List.drop_eq_nil_iff]
    omega
  have hcore' : core (inFrame c1 content' padding' command') =
      { core (inFrame c content' padding' command') with withinPaddingBuffers := true } :=
    congrArg (fun r : Reader => { r with
      remainingContent := content', remainingPadding := padding',
      currentCommand := command' }) hcore
  have hsettle := settleCore_within hknown true
  rw [← hcore'] at hsettle
  obtain ⟨hbytes, hafter, hconn'⟩ := absorb_settled (a := ⟨a.bytes.drop k, a.error⟩) hdirect'
    (fun h => hnil h.2) (by rw [feeds, hw, Bool.true_or])
    (by rw [hunpad, hloop, hstrip]) (by rw [hunpad, hloop', hstrip])
  rw [hsettle] at hbytes hafter
  refine ⟨hbytes, .of_core (hwhole'.trans hafter.symm) ?_ ?_⟩
  · rw [(absorb_forward c a).conn, hconn', hconn]
  · rw [hafter, ← hsettle]
    exact framed_settleCore (.inr ⟨Int.natCast_nonneg _, Int.natCast_nonneg _⟩) hw []

/-- The command behind the last frame ends the padding. -/
theorem settleCore_end (c : VisionConn) : settleCore (core (inFrame c 0 0 commandPaddingEnd)) [] =
    (some [], { core (inFrame c 0 0 commandPaddingEnd) with
      withinPaddingBuffers := false, remainingContent := -1, remainingPadding := -1 }) := rfl

theorem settleCore_continue (c : VisionConn) :
    settleCore (core (inFrame c 0 0 commandPaddingContinue)) [] =
      (some [], { core (inFrame c 0 0 commandPaddingContinue) with
        withinPaddingBuffers := true }) := rfl

theorem settleCore_frame (c : VisionConn) {content padding : Nat} (h : 0 < content + padding)
    (command : UInt8) : settleCore (core (inFrame c content padding command)) [] =
      (some [], { core (inFrame c content padding command) with
        withinPaddingBuffers := true }) := by
  have hcontent : (core (inFrame c content padding command)).remainingContent = content := rfl
  have hpadding : (core (inFrame c content padding command)).remainingPadding = padding := rfl
  rw [settleCore, hcontent, hpadding, if_neg (by omega), if_pos (by omega)]
  rfl

/-- A cut past the last frame: the two parts are there as they are. -/
theorem parted_past (hdirect : c.directRead = false) {front : Bytes}
    (hfront : (absorb c ⟨a.bytes.take k, none⟩).1 = front)
    (hcore : core (absorb c ⟨a.bytes.take k, none⟩).2 =
      { core (inFrame c 0 0 commandPaddingEnd) with
        withinPaddingBuffers := false, remainingContent := -1, remainingPadding := -1 })
    (hwhole : (absorb c a).1 = front ++ a.bytes.drop k)
    (hwhole' : core (absorb c a).2 =
      { core (inFrame c 0 0 commandPaddingEnd) with
        withinPaddingBuffers := false, remainingContent := -1, remainingPadding := -1 }) :
    Parted c a k := by
  have hstate : ∀ {d : VisionConn}, core d = { core (inFrame c 0 0 commandPaddingEnd) with
        withinPaddingBuffers := false, remainingContent := -1, remainingPadding := -1 } →
      d.directRead = false ∧ d.frameless = true ∧ d.userUUID = c.userUUID := by
    intro d hd
    have hcontent : d.remainingContent = -1 := congrArg Reader.remainingContent hd
    have hpadding : d.remainingPadding = -1 := congrArg Reader.remainingPadding hd
    refine ⟨(congrArg Reader.directRead hd).trans hdirect, ?_, congrArg Reader.userUUID hd⟩
    rw [VisionConn.frameless, hcontent, hpadding]
    rfl
  obtain ⟨hdir, hfr, huser⟩ := hstate hcore
  obtain ⟨hdir', hfr', huser'⟩ := hstate hwhole'
  refine parted_frameless hdir hfr hdir' hfr' (huser'.trans huser.symm) ?_
  rw [hwhole, hfront]

/-- A result may be cut where `MayCut` says so, and where it has no frames. -/
theorem parted (hdirect : c.directRead = false)
    (hcount : Counting c.remainingContent c.remainingPadding) (hk : 21 ≤ k)
    (hlen : k < a.bytes.length)
    (h : plain c a.bytes = true ∨ feeds c = true ∧ MayCut c a.bytes k) : Parted c a k := by
  by_cases hp : plain c a.bytes = true
  · exact parted_plain hdirect hk hlen hp
  obtain ⟨hf, hcut, hknown⟩ := h.resolve_left hp
  obtain ⟨content, padding, command, start, hstart, hplace, hunpad⟩ :=
    unPadding_strip hcount (Bool.eq_false_iff.mpr hp)
  have hnil : a.bytes ≠ [] := List.ne_nil_of_length_pos (by omega)
  have hnil' : a.bytes.take k ≠ [] := by
    rw [Ne, List.take_eq_nil_iff, not_or]
    exact ⟨by omega, hnil⟩
  -- the frames of the whole and of its front
  have hall : (a.bytes.drop start).take (a.bytes.length - start) = a.bytes.drop start :=
    List.take_of_length_le List.length_drop.le
  obtain ⟨hwhole, hwhole'⟩ := hunpad a.bytes.length spacious (by omega) le_rfl
  rw [List.take_length, hall] at hwhole hwhole'
  obtain ⟨hfront, hfront'⟩ := hunpad k spacious hk hlen.le
  have hparts : a.bytes.drop start = (a.bytes.drop start).take (k - start) ++ a.bytes.drop k := by
    have hdrop : (a.bytes.drop start).drop (k - start) = a.bytes.drop k := by
      rw [List.drop_drop, Nat.add_sub_cancel' (by omega)]
    rw [← hdrop, List.take_append_drop]
  have hlength : ((a.bytes.drop start).take (k - start)).length = k - start := by
    rw [List.length_take, List.length_drop]
    omega
  obtain ⟨front, hdef⟩ : ∃ front, front = (a.bytes.drop start).take (k - start) := ⟨_, rfl⟩
  rw [← hdef] at hfront hfront' hparts hlength
  have hplaceCut := place_append (content + padding) command front (a.bytes.drop k)
  rw [← hparts, hlength, ← hplace] at hplaceCut
  have hstands := strip_stands c content padding command front
  rw [hlength, ← hplaceCut] at hstands
  have hstandsEnd := strip_stands c content padding command (a.bytes.drop start)
  rw [List.length_drop, ← hplace] at hstandsEnd
  have happend := strip_append c content padding command front (a.bytes.drop k)
    fun command' bytes he => by
      rw [hlength, ← hplaceCut] at he
      exact (hcut command' bytes he).2
  rw [← hparts] at happend
  obtain ⟨hbytes, hcore, -⟩ := absorb_settled hdirect (fun h => hnil h.2) hf hwhole hwhole'
  obtain ⟨hbytes', hcore', -⟩ := absorb_settled (a := ⟨a.bytes.take k, none⟩) hdirect
    (fun h => hnil' h.2) hf hfront hfront'
  have hsettled : (settleCore (core (strip (inFrame c content padding command)
      (a.bytes.drop start)).2) []).1 ≠ none := by
    cases hend : placeAt c a.bytes a.bytes.length with
    | header command' bytes =>
        rw [hend] at hstandsEnd
        rw [show _ = inFrame c 0 0 command' from hstandsEnd]
        rcases hknown _ _ hend with rfl | rfl
        · rw [settleCore_continue]
          exact fun h => by cases h
        · exact fun h => by cases h
    | frame =>
        rw [hend] at hstandsEnd
        obtain ⟨_, _, _, hpos, hd⟩ := hstandsEnd
        rw [hd, settleCore_frame c hpos]
        exact fun h => by cases h
    | tail =>
        rw [hend] at hstandsEnd
        rw [show _ = inFrame c 0 0 commandPaddingEnd from hstandsEnd, settleCore_end]
        exact fun h => by cases h
  rw [happend] at hbytes hcore hsettled
  cases hend : placeAt c a.bytes k with
  | header command' bytes =>
      obtain ⟨rfl, rfl⟩ := hcut _ _ hend
      rw [hend] at hstands
      have hd : (strip (inFrame c content padding command) front).2 =
        inFrame c 0 0 commandPaddingContinue := hstands
      rw [hd, settleCore_continue] at hbytes' hcore'
      rw [hd] at hbytes hcore hsettled
      exact parted_inside hdirect hlen (hbytes'.trans (List.append_nil _)) hcore' rfl hsettled
        hbytes hcore
  | frame =>
      rw [hend] at hstands
      obtain ⟨content', padding', command', hpos, hd⟩ := hstands
      rw [hd, settleCore_frame c hpos] at hbytes' hcore'
      rw [hd] at hbytes hcore hsettled
      exact parted_inside hdirect hlen (hbytes'.trans (List.append_nil _)) hcore' rfl hsettled
        hbytes hcore
  | tail =>
      rw [hend] at hstands
      have hd : (strip (inFrame c content padding command) front).2 =
        inFrame c 0 0 commandPaddingEnd := hstands
      rw [hd, settleCore_end] at hbytes' hcore'
      rw [hd, strip_end, settleCore_end] at hbytes hcore
      exact parted_past hdirect (hbytes'.trans (List.append_nil _)) hcore'
        (hbytes.trans (List.append_nil _)) hcore

end

/-! ## What is owed -/

theorem Source.on_set (s : Source) (wire : Wire) (rest : List Arrival) :
    (s.set wire rest).on wire = rest := by
  cases wire <;> rfl

theorem Source.set_set (s : Source) (wire : Wire) (rest rest' : List Arrival) :
    (s.set wire rest).set wire rest' = s.set wire rest' := by
  cases wire <;> rfl

/-- The direct mode adds what the raw connection brings. -/
theorem stream_direct {c : VisionConn} (h : c.directRead = true) (s : Source) :
    stream c s = s.raw.flatMap Arrival.bytes := by
  obtain ⟨inner, raw⟩ := s
  have hwire : wire c = .raw := if_pos h
  induction raw with
  | nil => exact stream_nil (by rw [hwire]; rfl)
  | cons a rest ih =>
      have hon : Source.on ⟨inner, a :: rest⟩ (wire c) = a :: rest := by
        rw [hwire]
        rfl
      rw [stream_cons hon, absorb_direct h, hwire, List.flatMap_cons]
      exact congrArg (a.bytes ++ ·) ih

/-- What the source adds to what a reader has been given, once its filter has missed a result in one
piece: the reader may count otherwise than the one it is compared with. -/
structure Awaits (c : VisionConn) (s : Source) (owed : Bytes) : Prop where
  direct : c.directRead = true → owed = stream c s
  outside : c.directRead = false → c.withinPaddingBuffers = false → c.frameless = true
  nothing : c.directRead = false → s.on (wire c) = [] → owed = []
  next : c.directRead = false → ∀ {a rest}, s.on (wire c) = a :: rest →
    c.announced a.bytes = false →
      ∃ d, Abreast (absorb c a).2 d ∧ owed = (absorb c a).1 ++ stream d (s.set (wire c) rest)

/-- What the source still adds. -/
def Owes : Bool → VisionConn → Source → Bytes → Prop
  | false, c, s, owed => owed = stream c s
  | true, c, s, owed => Awaits c s owed

theorem Awaits.of_abreast {c d : VisionConn} (h : Abreast c d) (s : Source) :
    Awaits c s (stream d s) where
  direct hdirect := by rw [stream_direct hdirect, stream_direct (h.direct.trans hdirect)]
  outside hdirect hw := by
    rcases h.mode hdirect with ⟨hc, -⟩ | ⟨-, hw', -⟩
    · exact hc
    · exact absurd (hw.symm.trans hw') (by decide)
  nothing _ hs := stream_nil (by rwa [h.wire])
  next hdirect a rest hs hopen := by
    obtain ⟨hbytes, hd⟩ := absorb_abreast h fun _ => hopen
    refine ⟨_, hd, ?_⟩
    rw [stream_cons (by rwa [h.wire]), hbytes, h.wire]

theorem Awaits.abreast {c d : VisionConn} {s : Source} {owed : Bytes} (ho : Awaits d s owed)
    (h : Abreast c d) : Awaits c s owed where
  direct hdirect := by
    have hdirect' := h.direct.trans hdirect
    rw [ho.direct hdirect', stream_direct hdirect, stream_direct hdirect']
  outside := (Awaits.of_abreast h s).outside
  nothing hdirect hs := ho.nothing (h.direct.trans hdirect) (by rwa [h.wire])
  next hdirect a rest hs hopen := by
    obtain ⟨hbytes, hnext⟩ := absorb_abreast h fun _ => hopen
    obtain ⟨e, he, howed⟩ := ho.next (h.direct.trans hdirect) (by rwa [h.wire])
      ((h.announced hdirect _).trans hopen)
    exact ⟨e, hnext.trans he, by rw [howed, hbytes, h.wire]⟩

theorem awaits_of_owes {c d : VisionConn} (h : Abreast c d) {miscounted : Bool} {s : Source}
    {owed : Bytes} (ho : Owes miscounted d s owed) : Awaits c s owed := by
  cases miscounted with
  | false => exact ho ▸ .of_abreast h s
  | true => exact ho.abreast h

theorem Abreast.twin {c d e : VisionConn} (h : Twin c d) (he : Abreast c e) : Abreast d e := by
  obtain ⟨_, _, _, rfl⟩ := h
  exact ⟨he.user, he.conn, he.direct, he.mode⟩

theorem owes_twin {c d : VisionConn} (h : Twin c d) {miscounted : Bool} {s : Source}
    {owed : Bytes} (ho : Owes miscounted c s owed) : Owes miscounted d s owed := by
  cases miscounted with
  | false => exact ho.trans (stream_twin h s)
  | true =>
      obtain ⟨hdirect, houtside, hnothing, hnext⟩ := ho
      have hstream := stream_twin h s
      have habsorb := absorb_twin h
      obtain ⟨cipher, enableXTLS, parts, rfl⟩ := h
      refine ⟨fun hd => (hdirect hd).trans hstream, houtside, hnothing,
        fun hd a rest hs hopen => ?_⟩
      obtain ⟨e, he, howed⟩ := hnext hd hs hopen
      obtain ⟨hbytes, htwin⟩ := habsorb a
      exact ⟨e, he.twin htwin, hbytes ▸ howed⟩

theorem owes_direct {c : VisionConn} (h : c.directRead = true) {miscounted : Bool} {s : Source}
    {owed : Bytes} : Owes miscounted c s owed ↔ owed = stream c s := by
  cases miscounted with
  | false => exact Iff.rfl
  | true =>
      have hne : c.directRead ≠ false := by rw [h]; decide
      exact ⟨fun ho => ho.direct h, fun ho => ⟨fun _ => ho, fun hd => absurd hd hne,
        fun hd => absurd hd hne, fun hd => absurd hd hne⟩⟩

theorem wire_absorb {c : VisionConn} {a : Arrival} (h : c.directRead = false)
    (h' : (absorb c a).2.directRead = false) : wire (absorb c a).2 = wire c := by
  have hconn := (absorb_forward c a).conn
  unfold wire
  rw [h, h', hconn]

/-- A result that is cut: the reader waits for its other piece. -/
theorem awaits_cut {c d : VisionConn} (s : Source) {b : Arrival} (rest : List Arrival) {k : Nat}
    (hdirect : c.directRead = false) (h : Parted c b k)
    (hd : d = (absorb c b).2 ∨ Abreast (absorb c b).2 d) :
    ∃ more, (absorb c b).1 ++ stream d (s.set (wire c) rest) =
        (absorb c ⟨b.bytes.take k, none⟩).1 ++ more ∧
      Awaits (absorb c ⟨b.bytes.take k, none⟩).2
        (s.set (wire c) (⟨b.bytes.drop k, b.error⟩ :: rest)) more := by
  obtain ⟨content, hbytes, hback⟩ := h.rest
  have hwire := wire_absorb hdirect h.direct
  have hne : (absorb c ⟨b.bytes.take k, none⟩).2.directRead ≠ true := by
    rw [h.direct]
    decide
  refine ⟨content ++ stream d (s.set (wire c) rest), by rw [hbytes, List.append_assoc],
    fun hd => absurd hd hne, fun _ => h.outside, fun _ hs => ?_, fun _ a rest' hs hopen => ?_⟩
  · rw [hwire, Source.on_set] at hs
    cases hs
  · rw [hwire, Source.on_set] at hs
    obtain ⟨rfl, rfl⟩ := List.cons.inj hs
    obtain ⟨hcontent, habreast⟩ := hback hopen
    refine ⟨d, ?_, ?_⟩
    · rcases hd with rfl | hd
      · exact habreast
      · exact habreast.trans hd
    · rw [hcontent, hwire, Source.set_set]

end DshClashProxy.Core.VisionStream
