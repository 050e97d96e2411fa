import DshClashProxy.Core.VisionDirections

/-!
# Where a result may be cut

A buffer that does not hold a result cuts it in two. The loop of `unPadding` makes of the two parts
what it makes of the whole, unless the cut is inside a header. But the flags are settled after each
part, so a cut between two frames is seen as well, unless the frame in front of it continues.
-/
namespace DshClashProxy.Core.VisionCuts

open Js Vision
open VisionDirections (Counting core settleCore unPaddingLoop_uniform)

/-! ## Places -/

/-- Where a reader of frames stands: behind so many bytes of a header, with the command of the frame
in front of it, inside a frame, or past the last one. -/
inductive Place where
  | header (command : UInt8) (bytes : Nat)
  | frame
  | tail

/-- The place behind `k` bytes, when `left` bytes of the frame are still to come. -/
def place (left : Nat) (command : UInt8) (b : Bytes) (k : Nat) : Place :=
  if k < left then .frame
  else if command = commandPaddingEnd then .tail
  else if k < left + 5 then .header command (k - left)
  else
    let header := b.drop left
    place (byteAt header 1 * 256 + byteAt header 2 + (byteAt header 3 * 256 + byteAt header 4))
      (header.getD 0 0) (header.drop 5) (k - left - 5)
termination_by k

/-- The place behind `k` bytes of a result. -/
def placeAt (c : VisionConn) (b : Bytes) (k : Nat) : Place :=
  if c.announced b then place 0 commandPaddingContinue (b.drop 16) (k - 16)
  else if c.frameless then .tail
  else place (c.remainingContent.toNat + c.remainingPadding.toNat) c.currentCommand b k

/-- A result may be cut after `k` bytes. -/
structure MayCut (c : VisionConn) (b : Bytes) (k : Nat) : Prop where
  /-- No header is cut, and behind a frame the command is to continue. -/
  cut : ∀ command bytes, placeAt c b k = .header command bytes →
    command = commandPaddingContinue ∧ bytes = 0
  /-- The result does not fail. -/
  known : ∀ command bytes, placeAt c b b.length = .header command bytes →
    command = commandPaddingContinue ∨ command = commandPaddingDirect

theorem place_frame {left : Nat} {command : UInt8} {b : Bytes} {k : Nat} (h : k < left) :
    place left command b k = .frame := by
  rw [place, if_pos h]

theorem place_tail {left : Nat} {b : Bytes} {k : Nat} (h : left ≤ k) :
    place left commandPaddingEnd b k = .tail := by
  rw [place, if_neg (by omega), if_pos rfl]

theorem place_short {left : Nat} {command : UInt8} {b : Bytes} {k : Nat} (h : left ≤ k)
    (hend : command ≠ commandPaddingEnd) (hk : k < left + 5) :
    place left command b k = .header command (k - left) := by
  rw [place, if_neg (by omega), if_neg hend, if_pos hk]

theorem place_header {command : UInt8} {b : Bytes} {k : Nat}
    (hend : command ≠ commandPaddingEnd) (hk : 5 ≤ k) :
    place 0 command b k =
      place (byteAt b 1 * 256 + byteAt b 2 + (byteAt b 3 * 256 + byteAt b 4)) (b.getD 0 0)
        (b.drop 5) (k - 5) := by
  rw [place, if_neg (by omega), if_neg hend, if_neg (by omega)]
  simp only [List.drop_zero, Nat.sub_zero]

/-- What is read of a frame does not count. -/
theorem place_read (n left : Nat) (command : UInt8) (b : Bytes) {k : Nat} (h : n ≤ k) :
    place (n + left) command b k = place left command (b.drop n) (k - n) := by
  rw [place.eq_def (n + left), place.eq_def left command (b.drop n)]
  have hdrop : (b.drop n).drop left = b.drop (n + left) := List.drop_drop
  have hsub : k - (n + left) = k - n - left := by omega
  simp only [hdrop, hsub, show k < n + left ↔ k - n < left by omega,
    show k < n + left + 5 ↔ k - n < left + 5 by omega]

/-! ## The loop -/

/-- The state in a frame. -/
def inFrame (c : VisionConn) (content padding : Nat) (command : UInt8) : VisionConn :=
  { c with remainingContent := content, remainingPadding := padding, currentCommand := command }

/-- The content that the loop of `unPadding` finds in a buffer, and the state behind it. -/
def strip (c : VisionConn) (b : Bytes) : Bytes × VisionConn :=
  (((c.unPaddingLoop [] b).1.map Slice.bytes).flatten, (c.unPaddingLoop [] b).2)

theorem drop_min (n : Nat) (b : Bytes) : b.drop (min n b.length) = b.drop n := by
  rcases Nat.le_total n b.length with h | h
  · rw [Nat.min_eq_left h]
  · rw [Nat.min_eq_right h, List.drop_length, List.drop_of_length_le h]

section
variable (c : VisionConn) (content padding : Nat) (command : UInt8) (b : Bytes)

theorem strip_nil : strip c [] = ([], c) := by
  rw [strip, VisionConn.unPaddingLoop, if_pos rfl]
  rfl

theorem strip_end : strip (inFrame c 0 0 commandPaddingEnd) b =
    (b, inFrame c 0 0 commandPaddingEnd) := by
  by_cases hb : b = []
  · rw [hb, strip_nil]
  · rw [strip, VisionConn.unPaddingLoop, if_neg hb, if_pos ⟨Int.le_refl 0, Int.le_refl 0⟩,
      if_pos (show (inFrame c 0 0 commandPaddingEnd).currentCommand = commandPaddingEnd from rfl)]
    simp only [List.map_cons, List.map_nil, List.flatten_cons, List.flatten_nil, List.append_nil]

variable {command}

theorem strip_short (hend : command ≠ commandPaddingEnd) (hb : b.length < 5) :
    strip (inFrame c 0 0 command) b = ([], inFrame c 0 0 command) := by
  by_cases hnil : b = []
  · rw [hnil, strip_nil]
  · rw [strip, VisionConn.unPaddingLoop, if_neg hnil, if_pos ⟨Int.le_refl 0, Int.le_refl 0⟩,
      if_neg (show ¬ (inFrame c 0 0 command).currentCommand = commandPaddingEnd from hend),
      if_pos hb]
    rfl

theorem strip_header (hend : command ≠ commandPaddingEnd) (hb : 5 ≤ b.length) :
    strip (inFrame c 0 0 command) b =
      strip (inFrame c (byteAt b 1 * 256 + byteAt b 2) (byteAt b 3 * 256 + byteAt b 4)
        (b.getD 0 0)) (b.drop 5) := by
  have hnil : b ≠ [] := by
    rintro rfl
    cases hb
  rw [strip, VisionConn.unPaddingLoop, if_neg hnil, if_pos ⟨Int.le_refl 0, Int.le_refl 0⟩,
    if_neg (show ¬ (inFrame c 0 0 command).currentCommand = commandPaddingEnd from hend),
    if_neg (by omega)]
  rfl

variable (command)

theorem strip_content (h : 0 < content) :
    strip (inFrame c content padding command) b =
      (b.take content ++
          (strip (inFrame c (content - b.length) padding command) (b.drop content)).1,
        (strip (inFrame c (content - b.length) padding command) (b.drop content)).2) := by
  by_cases hnil : b = []
  · rw [hnil, List.take_nil, List.drop_nil, List.length_nil, Nat.sub_zero, strip_nil,
      List.nil_append]
  have hrc : (inFrame c content padding command).remainingContent = content := rfl
  have hpos : (0 : Int) < (inFrame c content padding command).remainingContent := by
    rw [hrc]
    omega
  have hstop : min (inFrame c content padding command).remainingContent.toNat b.length =
      min content b.length := by rw [hrc, Int.toNat_natCast]
  have htake : b.take (min content b.length) = b.take content := by
    rw [List.take_eq_take_iff]
    omega
  have hdrop : b.drop (min content b.length) = b.drop content := drop_min content b
  have hleft : (content : Int) - (min content b.length : Nat) = (content - b.length : Nat) := by
    omega
  have hstate : ({ inFrame c content padding command with
      remainingContent := (inFrame c content padding command).remainingContent -
        (min content b.length : Nat) } : VisionConn) =
      inFrame c (content - b.length) padding command := by
    rw [hrc, hleft]
    rfl
  rw [strip, VisionConn.unPaddingLoop, if_neg hnil, if_neg (by omega), if_pos hpos]
  simp only [hstop, hdrop, htake, hstate, List.map_cons, List.flatten_cons]
  rfl

theorem strip_padding (h : 0 < padding) :
    strip (inFrame c 0 padding command) b =
      strip (inFrame c 0 (padding - b.length) command) (b.drop padding) := by
  by_cases hnil : b = []
  · rw [hnil, List.drop_nil, List.length_nil, Nat.sub_zero]
  have hrp : (inFrame c 0 padding command).remainingPadding = padding := rfl
  have hpos : ¬ (inFrame c 0 padding command).remainingPadding ≤ 0 := by
    rw [hrp]
    omega
  have hstop : min (inFrame c 0 padding command).remainingPadding.toNat b.length =
      min padding b.length := by rw [hrp, Int.toNat_natCast]
  have hdrop : b.drop (min padding b.length) = b.drop padding := drop_min padding b
  have hleft : (padding : Int) - (min padding b.length : Nat) = (padding - b.length : Nat) := by
    omega
  have hstate : ({ inFrame c 0 padding command with
      remainingPadding := (inFrame c 0 padding command).remainingPadding -
        (min padding b.length : Nat) } : VisionConn) =
      inFrame c 0 (padding - b.length) command := by
    rw [hrp, hleft]
    rfl
  rw [strip, VisionConn.unPaddingLoop, if_neg hnil, if_neg fun hz => hpos hz.2,
    if_neg (show ¬ 0 < (inFrame c 0 padding command).remainingContent from Int.lt_irrefl 0)]
  simp only [hstop, hdrop, hstate]
  rfl

end

/-! ## Cuts in a buffer -/

/-- A header is the same with more behind it. -/
theorem header_append (front back : Bytes) (h : 5 ≤ front.length) :
    (∀ i < 5, byteAt (front ++ back) i = byteAt front i) ∧
      (front ++ back).getD 0 0 = front.getD 0 0 ∧
      (front ++ back).drop 5 = front.drop 5 ++ back := by
  have hget : ∀ i < 5, (front ++ back).getD i 0 = front.getD i 0 := fun i hi => by
    rw [List.getD_eq_getElem?_getD, List.getD_eq_getElem?_getD,
      List.getElem?_append_left (by omega)]
  exact ⟨fun i hi => congrArg UInt8.toNat (hget i hi), hget 0 (by decide),
    List.drop_append_of_le_length h⟩

/-- A place does not depend on what comes behind it. -/
theorem place_append (left : Nat) (command : UInt8) (front back : Bytes) :
    place left command (front ++ back) front.length = place left command front front.length := by
  induction hn : front.length using Nat.strong_induction_on generalizing left command front with
  | _ n ih =>
      subst hn
      by_cases hframe : front.length < left
      · rw [place_frame hframe, place_frame hframe]
      by_cases hend : command = commandPaddingEnd
      · rw [hend, place_tail (by omega), place_tail (by omega)]
      by_cases hshort : front.length < left + 5
      · rw [place_short (by omega) hend hshort, place_short (by omega) hend hshort]
      have hread := place_read left 0 command
      rw [Nat.add_zero] at hread
      rw [hread _ (by omega), hread _ (by omega), List.drop_append_of_le_length (by omega),
        place_header hend (by omega), place_header hend (by omega)]
      have hlen : (front.drop left).length = front.length - left := List.length_drop
      obtain ⟨hbyte, hcommand, hdrop⟩ := header_append (front.drop left) back (by omega)
      have hk : front.length - left - 5 = ((front.drop left).drop 5).length := by
        rw [List.length_drop, hlen]
      rw [hbyte 1 (by decide), hbyte 2 (by decide), hbyte 3 (by decide), hbyte 4 (by decide),
        hcommand, hdrop, hk]
      exact ih _ (by rw [← hk]; omega) _ _ _ rfl

/-- The loop does not see a cut that is not inside a header. -/
theorem strip_append (c : VisionConn) (content padding : Nat) (command : UInt8)
    (front back : Bytes)
    (h : ∀ command' bytes, place (content + padding) command front front.length =
      .header command' bytes → bytes = 0) :
    strip (inFrame c content padding command) (front ++ back) =
      ((strip (inFrame c content padding command) front).1 ++
          (strip (strip (inFrame c content padding command) front).2 back).1,
        (strip (strip (inFrame c content padding command) front).2 back).2) := by
  induction hn : front.length using Nat.strong_induction_on
    generalizing content padding command front with
  | _ n ih =>
      subst hn
      by_cases hcontent : 0 < content
      · rw [strip_content _ _ _ _ (front ++ back) hcontent, strip_content _ _ _ _ front hcontent]
        rcases Nat.lt_or_ge front.length content with hlt | hle
        · have hleft : content - (front ++ back).length = content - front.length - back.length := by
            rw [List.length_append]
            omega
          rw [List.take_of_length_le hlt.le, List.drop_of_length_le hlt.le, strip_nil,
            List.append_nil, strip_content _ _ _ _ back (by omega), hleft, List.take_append,
            List.drop_append, List.take_of_length_le hlt.le, List.drop_of_length_le hlt.le,
            List.nil_append, List.append_assoc]
        · have hdone : content - (front ++ back).length = 0 := by
            rw [List.length_append]
            omega
          have hplace := place_read content padding command front hle
          rw [← List.length_drop] at hplace
          rw [hdone, Nat.sub_eq_zero_of_le hle, List.take_append_of_le_length hle,
            List.drop_append_of_le_length hle]
          rw [ih _ (by rw [List.length_drop]; omega) 0 padding command (front.drop content)
            (by rwa [Nat.zero_add, ← hplace]) rfl]
          simp only [List.append_assoc]
      obtain rfl := Nat.eq_zero_of_not_pos hcontent
      by_cases hpadding : 0 < padding
      · rw [strip_padding _ _ _ (front ++ back) hpadding, strip_padding _ _ _ front hpadding]
        rcases Nat.lt_or_ge front.length padding with hlt | hle
        · have hleft : padding - (front ++ back).length = padding - front.length - back.length := by
            rw [List.length_append]
            omega
          rw [List.drop_of_length_le hlt.le, strip_nil, strip_padding _ _ _ back (by omega), hleft,
            List.drop_append, List.drop_of_length_le hlt.le, List.nil_append, List.nil_append]
        · have hdone : padding - (front ++ back).length = 0 := by
            rw [List.length_append]
            omega
          have hplace := place_read padding 0 command front hle
          rw [← List.length_drop] at hplace
          rw [hdone, Nat.sub_eq_zero_of_le hle, List.drop_append_of_le_length hle]
          exact ih _ (by rw [List.length_drop]; omega) 0 0 command (front.drop padding)
            (by rw [Nat.zero_add]; rwa [Nat.zero_add, ← Nat.add_zero padding, hplace] at h) rfl
      obtain rfl := Nat.eq_zero_of_not_pos hpadding
      by_cases hend : command = commandPaddingEnd
      · subst hend
        rw [strip_end, strip_end, strip_end]
      by_cases hnil : front = []
      · rw [hnil, List.nil_append, strip_nil, List.nil_append]
      have hpos := List.length_pos_iff.mpr hnil
      have hfive : 5 ≤ front.length := by
        by_contra hlt
        have hplace := h _ _ (place_short (Nat.zero_le _) hend (by omega))
        omega
      obtain ⟨hbyte, hcommand, hdrop⟩ := header_append front back hfive
      rw [strip_header _ (front ++ back) hend (by rw [List.length_append]; omega),
        strip_header _ front hend hfive, hbyte 1 (by decide), hbyte 2 (by decide),
        hbyte 3 (by decide), hbyte 4 (by decide), hcommand, hdrop]
      rw [Nat.zero_add, place_header hend hfive, ← List.length_drop] at h
      exact ih _ (by rw [List.length_drop]; omega) _ _ _ (front.drop 5) h rfl

/-- The counters and the command of a state at a place. -/
def Stands (c : VisionConn) : Place → VisionConn → Prop
  | .header command _, d => d = inFrame c 0 0 command
  | .frame, d => ∃ content padding command, 0 < content + padding ∧
      d = inFrame c content padding command
  | .tail, d => d = inFrame c 0 0 commandPaddingEnd

theorem strip_stands (c : VisionConn) (content padding : Nat) (command : UInt8) (b : Bytes) :
    Stands c (place (content + padding) command b b.length)
      (strip (inFrame c content padding command) b).2 := by
  induction hn : b.length using Nat.strong_induction_on generalizing content padding command b with
  | _ n ih =>
      subst hn
      by_cases hcontent : 0 < content
      · rw [strip_content _ _ _ _ b hcontent]
        rcases Nat.lt_or_ge b.length content with hlt | hle
        · rw [place_frame (by omega), List.drop_of_length_le hlt.le, strip_nil]
          exact ⟨_, _, _, by omega, rfl⟩
        · rw [place_read content padding command b hle, ← List.length_drop,
            Nat.sub_eq_zero_of_le hle]
          have hrest := ih _ (by rw [List.length_drop]; omega) 0 padding command
            (b.drop content) rfl
          rwa [Nat.zero_add] at hrest
      obtain rfl := Nat.eq_zero_of_not_pos hcontent
      rw [Nat.zero_add]
      by_cases hpadding : 0 < padding
      · rw [strip_padding _ _ _ b hpadding]
        rcases Nat.lt_or_ge b.length padding with hlt | hle
        · rw [place_frame hlt, List.drop_of_length_le hlt.le, strip_nil]
          exact ⟨_, _, _, by omega, rfl⟩
        · have hplace := place_read padding 0 command b hle
          rw [Nat.add_zero] at hplace
          rw [hplace, ← List.length_drop, Nat.sub_eq_zero_of_le hle]
          have hrest := ih _ (by rw [List.length_drop]; omega) 0 0 command (b.drop padding) rfl
          rwa [Nat.zero_add] at hrest
      obtain rfl := Nat.eq_zero_of_not_pos hpadding
      by_cases hend : command = commandPaddingEnd
      · subst hend
        rw [place_tail (Nat.zero_le _), strip_end]
        exact rfl
      by_cases hshort : b.length < 5
      · rw [place_short (Nat.zero_le _) hend (by omega), strip_short _ _ hend hshort]
        exact rfl
      · rw [place_header hend (by omega), strip_header _ _ hend (by omega), ← List.length_drop]
        exact ih _ (by rw [List.length_drop]; omega) _ _ _ _ rfl

/-! ## Buffers -/

/-- The memory behind the slice does not matter to the loop. -/
theorem unPaddingLoop_behind (c : VisionConn) (behind behind' b : Bytes) :
    (c.unPaddingLoop behind b).1.map Slice.bytes =
        (c.unPaddingLoop behind' b).1.map Slice.bytes ∧
      (c.unPaddingLoop behind b).2 = (c.unPaddingLoop behind' b).2 := by
  induction hn : b.length using Nat.strong_induction_on generalizing c b with
  | _ n ih =>
      rw [VisionConn.unPaddingLoop, VisionConn.unPaddingLoop.eq_def c behind']
      by_cases hnil : b = []
      · simp only [hnil, if_true]
        exact ⟨trivial, trivial⟩
      have hpos := List.length_pos_iff.mpr hnil
      simp only [hnil, if_false]
      split_ifs with hz hend hfive hcontent
      · exact ⟨rfl, rfl⟩
      · exact ⟨rfl, rfl⟩
      · exact ih _ (by rw [List.length_drop]; omega) _ _ rfl
      · obtain ⟨hbytes, hstate⟩ := ih (b.drop (min c.remainingContent.toNat b.length)).length
          (by rw [List.length_drop]; omega)
          { c with remainingContent :=
            c.remainingContent - (min c.remainingContent.toNat b.length : Nat) } _ rfl
        refine ⟨?_, hstate⟩
        simp only [List.map_cons, hbytes]
      · exact ih _ (by rw [List.length_drop]; omega) _ _ rfl

theorem unPaddingLoop_strip (c : VisionConn) (behind b : Bytes) :
    ((c.unPaddingLoop behind b).1.map Slice.bytes).flatten = (strip c b).1 ∧
      (c.unPaddingLoop behind b).2 = (strip c b).2 := by
  obtain ⟨hbytes, hstate⟩ := unPaddingLoop_behind c behind [] b
  exact ⟨congrArg List.flatten hbytes, hstate⟩

/-- The loop sees the counters and the command alone. -/
theorem strip_uniform (content padding : Nat) (command : UInt8) (b : Bytes) :
    ∃ bytes content' padding' command', ∀ c : VisionConn,
      strip (inFrame c content padding command) b =
        (bytes, inFrame c content' padding' command') := by
  obtain ⟨buffers, content', padding', command', hpos, hloop⟩ :=
    unPaddingLoop_uniform content padding command [] b
  obtain ⟨hcontent, hpadding⟩ := hpos ⟨Int.natCast_nonneg _, Int.natCast_nonneg _⟩
  refine ⟨(buffers.map Slice.bytes).flatten, content'.toNat, padding'.toNat, command',
    fun c => ?_⟩
  have hstate : inFrame c content'.toNat padding'.toNat command' =
      { c with remainingContent := content', remainingPadding := padding',
               currentCommand := command' } := by
    rw [inFrame, Int.toNat_of_nonneg hcontent, Int.toNat_of_nonneg hpadding]
  rw [strip, hloop _ rfl rfl rfl, hstate]
  rfl

/-- A result in which no frame is read. -/
def plain (c : VisionConn) (b : Bytes) : Bool := c.frameless && !c.announced b

theorem plain_unPadding {c : VisionConn} {b : Bytes} (h : plain c b = true) (behind : Bytes) :
    c.unPadding ⟨b, behind⟩ = ([⟨b, behind⟩], c) := by
  rw [plain, Bool.and_eq_true, Bool.not_eq_true'] at h
  rw [VisionConn.unPadding, if_neg (by rw [h.2]; decide), if_pos h.1]

/-- Long parts of a buffer start a padded stream if the buffer does. -/
theorem announced_take (c : VisionConn) (b : Bytes) {k : Nat} (hk : 21 ≤ k) (hb : k ≤ b.length) :
    c.announced (b.take k) = c.announced b := by
  have hlen : (b.take k).length = k := by
    rw [List.length_take]
    omega
  rw [VisionConn.announced, VisionConn.announced, hlen, List.take_take, Nat.min_eq_left (by omega)]
  simp only [hk, hk.trans hb]

theorem plain_take (c : VisionConn) (b : Bytes) {k : Nat} (hk : 21 ≤ k) (hb : k ≤ b.length) :
    plain c (b.take k) = plain c b := by
  rw [plain, plain, announced_take c b hk hb]

/-- The frames in a buffer: where they start, and what is left of the one that is being read. -/
theorem unPadding_strip {c : VisionConn} {b : Bytes}
    (h : Counting c.remainingContent c.remainingPadding) (hp : plain c b = false) :
    ∃ content padding command start, start ≤ 16 ∧
      (∀ k, placeAt c b k = place (content + padding) command (b.drop start) (k - start)) ∧
      ∀ k behind, 21 ≤ k → k ≤ b.length →
        ((c.unPadding ⟨b.take k, behind⟩).1.map Slice.bytes).flatten =
            (strip (inFrame c content padding command) ((b.drop start).take (k - start))).1 ∧
          (c.unPadding ⟨b.take k, behind⟩).2 =
            (strip (inFrame c content padding command) ((b.drop start).take (k - start))).2 := by
  by_cases ha : c.announced b = true
  · refine ⟨0, 0, commandPaddingContinue, 16, le_rfl, fun k => ?_, fun k behind hk hb => ?_⟩
    · rw [placeAt, if_pos ha]
    · rw [VisionConn.unPadding, if_pos ((announced_take c b hk hb).trans ha), ← List.drop_take]
      exact unPaddingLoop_strip _ _ _
  have ha := Bool.eq_false_iff.mpr ha
  have hf : c.frameless = false := by
    rwa [plain, ha, Bool.not_false, Bool.and_true] at hp
  have hcount : 0 ≤ c.remainingContent ∧ 0 ≤ c.remainingPadding := by
    refine h.resolve_left fun hone => ?_
    simp [VisionConn.frameless, hone] at hf
  have hstate : inFrame c c.remainingContent.toNat c.remainingPadding.toNat c.currentCommand =
      c := by
    rw [inFrame, Int.toNat_of_nonneg hcount.1, Int.toNat_of_nonneg hcount.2]
  refine ⟨c.remainingContent.toNat, c.remainingPadding.toNat, c.currentCommand, 0, Nat.zero_le _,
    fun k => ?_, fun k behind hk hb => ?_⟩
  · rw [placeAt, if_neg (by rw [ha]; decide), if_neg (by rw [hf]; decide)]
    rfl
  · rw [VisionConn.unPadding, if_neg (by rw [announced_take c b hk hb, ha]; decide),
      if_neg (by rw [hf]; decide), hstate]
    exact unPaddingLoop_strip _ _ _

/-! ## Settling -/

/-- What settling adds does not depend on what is there. -/
theorem settleCore_append (r : Reader) (buffers : List Slice) :
    settleCore r buffers =
      ((settleCore r []).1.map (buffers ++ ·), (settleCore r []).2) := by
  rw [settleCore, settleCore]
  split_ifs <;> simp only [Option.map_some, Option.map_none, List.append_nil, List.nil_append,
    List.append_assoc]

/-- Settling overrides what the flag was, unless it fails. -/
theorem settleCore_within {r : Reader} (h : (settleCore r []).1 ≠ none) (within : Bool) :
    settleCore { r with withinPaddingBuffers := within } [] = settleCore r [] := by
  rw [settleCore] at h ⊢
  rw [settleCore]
  split_ifs at h ⊢
  case pos => rfl
  case pos => rfl
  case pos => rfl
  case neg => exact absurd rfl h
  all_goals rfl

end DshClashProxy.Core.VisionCuts
