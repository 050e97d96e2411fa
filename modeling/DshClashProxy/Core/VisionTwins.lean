import DshClashProxy.Core.VisionCuts

/-!
# The memory behind a buffer

The filter takes the cipher suite of a server hello from behind its session id, so what it finds
depends on the memory behind the slice. Nothing that is read does, unless the session id points past
the capacity.
-/
namespace DshClashProxy.Core.VisionTwins

open Js Vision
open VisionDirections (unPaddingLoop_uniform)
open VisionCuts (unPaddingLoop_behind)

/-- Two connections that differ in what the filter may take from memory behind a slice, and in the
multi-reader. -/
def Twin (c d : VisionConn) : Prop :=
  ∃ cipher enableXTLS parts, d = { c with cipher, enableXTLS, remainingReader := parts }

/-- Memory behind a slice that has room for any session id. -/
def spacious : Bytes := List.replicate 512 0

theorem Twin.symm {c d : VisionConn} (h : Twin c d) : Twin d c := by
  obtain ⟨_, _, _, rfl⟩ := h
  exact ⟨c.cipher, c.enableXTLS, c.remainingReader, rfl⟩

theorem Twin.trans {c d e : VisionConn} (h : Twin c d) (h' : Twin d e) : Twin c e := by
  obtain ⟨_, _, _, rfl⟩ := h
  obtain ⟨cipher, enableXTLS, parts, rfl⟩ := h'
  exact ⟨cipher, enableXTLS, parts, rfl⟩

/-- Twins read a buffer alike. -/
theorem unPaddingLoop_twin {c d : VisionConn} (h : Twin c d) (behind behind' b : Bytes) :
    (c.unPaddingLoop behind b).1.map Slice.bytes =
        (d.unPaddingLoop behind' b).1.map Slice.bytes ∧
      Twin (c.unPaddingLoop behind b).2 (d.unPaddingLoop behind' b).2 := by
  obtain ⟨cipher, enableXTLS, parts, rfl⟩ := h
  obtain ⟨buffers, content', padding', command', -, hloop⟩ :=
    unPaddingLoop_uniform c.remainingContent c.remainingPadding c.currentCommand behind b
  obtain ⟨hbytes, hstate⟩ := unPaddingLoop_behind
    { c with cipher, enableXTLS, remainingReader := parts } behind' behind b
  have hd := hloop { c with cipher, enableXTLS, remainingReader := parts } rfl rfl rfl
  rw [hbytes, hstate, hloop c rfl rfl rfl, hd]
  exact ⟨rfl, cipher, enableXTLS, parts, rfl⟩

theorem unPadding_twin {c d : VisionConn} (h : Twin c d) (behind behind' b : Bytes) :
    (c.unPadding ⟨b, behind⟩).1.map Slice.bytes = (d.unPadding ⟨b, behind'⟩).1.map Slice.bytes ∧
      Twin (c.unPadding ⟨b, behind⟩).2 (d.unPadding ⟨b, behind'⟩).2 := by
  obtain ⟨cipher, enableXTLS, parts, rfl⟩ := h
  have hannounced : VisionConn.announced { c with cipher, enableXTLS, remainingReader := parts } b =
      c.announced b := rfl
  have hframeless : VisionConn.frameless { c with cipher, enableXTLS, remainingReader := parts } =
      c.frameless := rfl
  unfold VisionConn.unPadding
  rw [hannounced, hframeless]
  split_ifs
  · exact unPaddingLoop_twin ⟨cipher, enableXTLS, parts, rfl⟩ _ _ _
  · exact ⟨rfl, cipher, enableXTLS, parts, rfl⟩
  · exact unPaddingLoop_twin ⟨cipher, enableXTLS, parts, rfl⟩ _ _ _

theorem settle_twin {c d : VisionConn} (h : Twin c d) {buffers buffers' : List Slice}
    (hb : buffers.map Slice.bytes = buffers'.map Slice.bytes) :
    ((c.settle buffers).1.map (·.map Slice.bytes) =
        (d.settle buffers').1.map (·.map Slice.bytes)) ∧
      Twin (c.settle buffers).2 (d.settle buffers').2 := by
  obtain ⟨cipher, enableXTLS, parts, rfl⟩ := h
  unfold VisionConn.settle
  dsimp only
  split_ifs
  · exact ⟨congrArg some hb, cipher, enableXTLS, parts, rfl⟩
  · refine ⟨?_, cipher, enableXTLS, parts, rfl⟩
    simp only [Option.map_some, List.map_append, hb]
  · exact ⟨congrArg some hb, cipher, enableXTLS, parts, rfl⟩
  · exact ⟨rfl, cipher, enableXTLS, parts, rfl⟩
  · exact ⟨congrArg some hb, cipher, enableXTLS, parts, rfl⟩
  · exact ⟨congrArg some hb, cipher, enableXTLS, parts, rfl⟩

/-- The filter takes nothing but the cipher suite from memory behind a slice. -/
theorem recognize_twin {c d c' d' : VisionConn} (h : Twin c d) {a b : Slice}
    (hb : a.bytes = b.bytes) (hc : c.recognize a = some c') (hd : d.recognize b = some d') :
    Twin c' d' := by
  obtain ⟨cipher, enableXTLS, parts, rfl⟩ := h
  unfold VisionConn.recognize at hc hd
  simp only [hb] at hc hd
  split_ifs at hc hd
  · obtain ⟨_, _, rfl⟩ := Option.map_eq_some_iff.mp hc
    obtain ⟨suite, _, rfl⟩ := Option.map_eq_some_iff.mp hd
    exact ⟨suite, enableXTLS, parts, rfl⟩
  all_goals
    obtain rfl := Option.some.inj hc
    obtain rfl := Option.some.inj hd
    exact ⟨cipher, enableXTLS, parts, rfl⟩

theorem scan_twin {c d : VisionConn} (h : Twin c d) (b : Bytes) : Twin (c.scan b) (d.scan b) := by
  obtain ⟨cipher, enableXTLS, parts, rfl⟩ := h
  unfold VisionConn.scan
  dsimp only
  split_ifs <;> exact ⟨_, _, parts, rfl⟩

theorem filterAll_twin {c d c' d' : VisionConn} (h : Twin c d) {buffers buffers' : List Slice}
    (hb : buffers.map Slice.bytes = buffers'.map Slice.bytes)
    (hc : c.filterAll buffers = some c') (hd : d.filterAll buffers' = some d') : Twin c' d' := by
  have hgo : ∀ {c d : VisionConn} {buffers buffers' : List Slice}, Twin c d →
      buffers.map Slice.bytes = buffers'.map Slice.bytes →
      buffers.foldlM VisionConn.filterTLS c = some c' →
      buffers'.foldlM VisionConn.filterTLS d = some d' → Twin c' d' := by
    intro c d buffers buffers' h hb hc hd
    induction buffers generalizing c d buffers' with
    | nil =>
        obtain rfl := List.map_eq_nil_iff.mp hb.symm
        obtain rfl := Option.some.inj hc
        obtain rfl := Option.some.inj hd
        exact h
    | cons a rest ih =>
        cases buffers' with
        | nil => cases hb
        | cons a' rest' =>
            obtain ⟨ha, hrest⟩ := List.cons.inj hb
            rw [List.foldlM_cons] at hc hd
            obtain ⟨e, he, hce⟩ := Option.bind_eq_some_iff.mp hc
            obtain ⟨e', he', hde⟩ := Option.bind_eq_some_iff.mp hd
            obtain ⟨r, hr, rfl⟩ := Option.map_eq_some_iff.mp he
            obtain ⟨r', hr', rfl⟩ := Option.map_eq_some_iff.mp he'
            obtain ⟨cipher, enableXTLS, parts, rfl⟩ := h
            have htwin := recognize_twin ⟨cipher, enableXTLS, parts, rfl⟩ ha hr hr'
            have hscan : Twin (r.scan a.bytes) (r'.scan a'.bytes) := by
              rw [← ha]
              exact scan_twin htwin _
            exact ih hscan hrest hce hde
  have hcount : d.numberOfPacketToFilter = c.numberOfPacketToFilter := by
    obtain ⟨_, _, _, rfl⟩ := h
    rfl
  unfold VisionConn.filterAll at hc hd
  rw [hcount] at hd
  split at hc
  · next hpos => exact hgo h hb hc (by rwa [if_pos hpos] at hd)
  · next hpos =>
      rw [if_neg hpos] at hd
      obtain rfl := Option.some.inj hc
      obtain rfl := Option.some.inj hd
      exact h

/-! ## Memory with room -/

theorem spacious_fits {s : Slice} {front : Bytes} (h : s.behind = front ++ spacious) :
    ¬ Overruns s := by
  intro hover
  have hlen := hover.2.2.2.2
  have hbyte : byteAt s.bytes 43 < 256 := UInt8.toNat_lt _
  rw [h, List.length_append, List.length_append, spacious, List.length_replicate] at hlen
  omega

theorem unPaddingLoop_spacious (c : VisionConn) (b : Bytes) :
    ∀ s ∈ (c.unPaddingLoop spacious b).1, ¬ Overruns s := by
  induction hn : b.length using Nat.strong_induction_on generalizing c b with
  | _ n ih =>
      rw [VisionConn.unPaddingLoop]
      by_cases hnil : b = []
      · rw [if_pos hnil]
        intro s hs
        cases hs
      have hpos := List.length_pos_iff.mpr hnil
      rw [if_neg hnil]
      split_ifs with hz hend hfive hcontent
      · intro s hs
        obtain rfl := List.mem_singleton.mp hs
        exact spacious_fits (List.nil_append _).symm
      · intro s hs
        cases hs
      · exact ih _ (by rw [List.length_drop]; omega) _ _ rfl
      · intro s hs
        rcases List.mem_cons.mp hs with rfl | hs
        · exact spacious_fits rfl
        · exact ih _ (by rw [List.length_drop]; omega) _ _ rfl s hs
      · exact ih _ (by rw [List.length_drop]; omega) _ _ rfl

/-- With room behind the buffer its content does not overrun. -/
theorem unPadding_spacious (c : VisionConn) (b : Bytes) :
    ∀ s ∈ (c.unPadding ⟨b, spacious⟩).1, ¬ Overruns s := by
  unfold VisionConn.unPadding
  split_ifs
  · exact unPaddingLoop_spacious _ _
  · intro s hs
    obtain rfl := List.mem_singleton.mp hs
    exact spacious_fits (List.nil_append _).symm
  · exact unPaddingLoop_spacious _ _

/-- What settling adds to the buffers has room behind it. -/
theorem settle_fits {c : VisionConn} {buffers bs : List Slice} (h : (c.settle buffers).1 = some bs)
    (hb : ∀ s ∈ buffers, ¬ Overruns s) : ∀ s ∈ bs, ¬ Overruns s := by
  have hsettled := (VisionDirections.settle_core c buffers).1.symm.trans h
  exact fun s hs => (VisionDirections.mem_settleCore hsettled s hs).elim (hb s) id

theorem unPadding_number (c : VisionConn) (buffer : Slice) :
    (c.unPadding buffer).2.numberOfPacketToFilter = c.numberOfPacketToFilter ∧
      (c.unPadding buffer).2.remainingReader = c.remainingReader := by
  have hloop : ∀ (c : VisionConn) (behind b : Bytes),
      (c.unPaddingLoop behind b).2.numberOfPacketToFilter = c.numberOfPacketToFilter ∧
        (c.unPaddingLoop behind b).2.remainingReader = c.remainingReader := by
    intro c behind b
    obtain ⟨_, _, _, _, -, hloop⟩ :=
      unPaddingLoop_uniform c.remainingContent c.remainingPadding c.currentCommand behind b
    rw [hloop c rfl rfl rfl]
    exact ⟨rfl, rfl⟩
  unfold VisionConn.unPadding
  split_ifs
  · exact hloop _ _ _
  · exact ⟨rfl, rfl⟩
  · exact hloop _ _ _

theorem settle_number (c : VisionConn) (buffers : List Slice) :
    (c.settle buffers).2.numberOfPacketToFilter = c.numberOfPacketToFilter ∧
      (c.settle buffers).2.remainingReader = c.remainingReader := by
  unfold VisionConn.settle
  split_ifs <;> exact ⟨rfl, rfl⟩

/-- A failing buffer leaves the multi-reader alone. -/
theorem feed_failed {c c' : VisionConn} {buffer : Slice} {result : Result}
    (h : c.feed buffer = (some result, c')) :
    c'.remainingReader = c.remainingReader ∧
      (result = .panic ∨ ∃ command, result = .unknownCommand command) := by
  have hunpad := (unPadding_number c buffer).2
  unfold VisionConn.feed at h
  rcases hu : c.unPadding buffer with ⟨buffers, c1⟩
  rw [hu] at h hunpad
  have hsettle := (settle_number c1 buffers).2
  rcases hs : c1.settle buffers with ⟨_ | settled, c2⟩
  · simp only [hs] at h hsettle
    obtain ⟨hresult, rfl⟩ := Prod.mk.inj h
    exact ⟨hsettle.trans hunpad, .inr ⟨_, (Option.some.inj hresult).symm⟩⟩
  · simp only [hs] at h hsettle
    split at h
    · obtain ⟨hresult, rfl⟩ := Prod.mk.inj h
      exact ⟨hsettle.trans hunpad, .inl (Option.some.inj hresult).symm⟩
    · cases h

/-- Feeding twins the same buffer, where nothing overruns. -/
theorem feed_twin {c d : VisionConn} (h : Twin c d) {behind behind' b : Bytes}
    (hc : 0 < c.numberOfPacketToFilter → ∀ s ∈ (c.unPadding ⟨b, behind⟩).1, ¬ Overruns s)
    (hd : 0 < d.numberOfPacketToFilter → ∀ s ∈ (d.unPadding ⟨b, behind'⟩).1, ¬ Overruns s) :
    (∃ command c' d', c.feed ⟨b, behind⟩ = (some (.unknownCommand command), c') ∧
        d.feed ⟨b, behind'⟩ = (some (.unknownCommand command), d') ∧ Twin c' d') ∨
      ∃ parts c' d', c.feed ⟨b, behind⟩ = (none, c') ∧ d.feed ⟨b, behind'⟩ = (none, d') ∧
        Twin c' d' ∧ c'.remainingReader = some parts ∧ d'.remainingReader = some parts := by
  obtain ⟨hbytes, hunpad⟩ := unPadding_twin h behind behind' b
  have hnumber := (unPadding_number c ⟨b, behind⟩).1
  have hnumber' := (unPadding_number d ⟨b, behind'⟩).1
  unfold VisionConn.feed
  generalize c.unPadding ⟨b, behind⟩ = r at *
  generalize d.unPadding ⟨b, behind'⟩ = r' at *
  obtain ⟨buffers, c1⟩ := r
  obtain ⟨buffers', d1⟩ := r'
  dsimp only at hbytes hunpad hnumber hnumber' hc hd ⊢
  obtain ⟨hsettled, hsettle⟩ := settle_twin hunpad hbytes
  have hcount := (settle_number c1 buffers).1
  have hcount' := (settle_number d1 buffers').1
  have hfits : ∀ bs, (c1.settle buffers).1 = some bs → 0 < c.numberOfPacketToFilter →
      ∀ s ∈ bs, ¬ Overruns s := fun bs hs hpos => settle_fits hs (hc hpos)
  have hfits' : ∀ bs, (d1.settle buffers').1 = some bs → 0 < d.numberOfPacketToFilter →
      ∀ s ∈ bs, ¬ Overruns s := fun bs hs hpos => settle_fits hs (hd hpos)
  generalize c1.settle buffers = r at *
  generalize d1.settle buffers' = r' at *
  obtain ⟨_ | bs, c2⟩ := r <;> obtain ⟨_ | bs', d2⟩ := r' <;>
    simp only [Option.map_none, Option.map_some, Option.some.injEq, reduceCtorEq]
      at hsettled hsettle hcount hcount' hfits hfits' ⊢
  · obtain ⟨cipher, enableXTLS, parts, rfl⟩ := hsettle
    exact .inl ⟨_, _, _, rfl, rfl, cipher, enableXTLS, parts, rfl⟩
  · obtain ⟨c3, hfilter⟩ := filterAll_isSome c2 bs fun hpos => hfits bs rfl (by omega)
    obtain ⟨d3, hfilter'⟩ := filterAll_isSome d2 bs' fun hpos => hfits' bs' rfl (by omega)
    obtain ⟨cipher, enableXTLS, _, rfl⟩ := filterAll_twin hsettle hsettled hfilter hfilter'
    simp only [hfilter, hfilter']
    exact .inr ⟨_, _, _, rfl, rfl, ⟨cipher, enableXTLS, _, rfl⟩, rfl, congrArg some hsettled.symm⟩

end DshClashProxy.Core.VisionTwins
