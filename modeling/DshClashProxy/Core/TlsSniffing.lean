import DshClashProxy.Core.Vision
import DshClashProxy.Lib.Accesses

/-!
# What TLS sniffing takes of its buffer

`filterTLS` here records the indexes and slices it takes. All of them are guarded by the length
of the buffer but one: the cipher suite stands behind a session id, whose length the other side
chooses, and the guard only leaves room for the 32 bytes that a session id may have.
-/
namespace DshClashProxy.Core.TlsSniffing

open Js Vision
open Lib.Accesses

/-! ## The filter -/

/-- The part that recognizes a hello. -/
def recognize (c : VisionConn) (buffer : Slice) : Traced VisionConn := do
  let b := buffer.bytes
  if 6 < b.length then
    if ← equalsFrom b 0 [22, 3, 3] then
      if (← index b 5) = 2 then
        let hi ← index b 3
        let lo ← index b 4
        let remaining : Nat := hi.toNat * 256 + lo.toNat + 5
        let c := { c with isTLS := true, isTLS12orAbove := true,
                          remainingServerHello := remaining }
        if 79 ≤ b.length ∧ 79 ≤ remaining then
          let sessionIDLen := (← index b 43).toNat
          let cipherSuite ← slice b buffer.behind (43 + sessionIDLen + 1) (43 + sessionIDLen + 3)
          pure { c with cipher := byteAt cipherSuite 0 * 256 + byteAt cipherSuite 1 }
        else pure c
      else pure { c with isTLS := true }
    else if (← slice b buffer.behind 0 2) = tlsClientHandShakeStart then
      if (← index b 5) = 1 then pure { c with isTLS := true } else pure c
    else pure c
  else pure c

/-- The part that looks for TLS 1.3. -/
def scan (c : VisionConn) (buffer : Slice) : Traced VisionConn :=
  if 0 < c.remainingServerHello then do
    let stop := min c.remainingServerHello.toNat buffer.bytes.length
    let c := { c with remainingServerHello := c.remainingServerHello - stop }
    if (Bytes.indexOf tls13SupportedVersions
        (← slice buffer.bytes buffer.behind 0 stop)).isSome then
      pure { c with enableXTLS := c.enableXTLS || directSuites.contains c.cipher,
                    numberOfPacketToFilter := 0 }
    else if c.remainingServerHello = 0 then pure { c with numberOfPacketToFilter := 0 }
    else pure c
  else pure c

def filterTLS (c : VisionConn) (buffer : Slice) : Traced VisionConn := do
  let c ← recognize { c with numberOfPacketToFilter := c.numberOfPacketToFilter - 1 } buffer
  scan c buffer

/-- The calls of the filter, one after the other, until one of them panics. -/
def calls (c : VisionConn) : List Slice → List (Slice × Traced VisionConn)
  | [] => []
  | buffer :: rest =>
      (buffer, filterTLS c buffer) ::
        match (filterTLS c buffer).result with
        | none => []
        | some c => calls c rest

/-- The cipher suite of a server hello is read. -/
def ReadsCipher (b : Bytes) : Prop :=
  79 ≤ b.length ∧ b.take 3 = tlsServerHandShakeStart ∧ byteAt b 5 = 2 ∧
    79 ≤ byteAt b 3 * 256 + byteAt b 4 + 5

/-- Where the cipher suite is read, the session id leaves room for it. -/
def SessionIdFits (b : Bytes) : Prop := ReadsCipher b → 46 + byteAt b 43 ≤ b.length

instance (b : Bytes) : Decidable (SessionIdFits b) :=
  inferInstanceAs (Decidable ((_ ∧ _ ∧ _ ∧ _) → _))

/-! ## What is taken -/

theorem takes_byte {b : Bytes} {i : Nat} (h : i < b.length) :
    (index b i).Takes b.length (b.getD i 0) := by
  rw [List.getD, List.getElem?_eq_getElem h, Option.getD_some]
  exact takes_index h

theorem byte_eq_iff (b : Bytes) (i : Nat) (n : UInt8) : b.getD i 0 = n ↔ byteAt b i = n.toNat :=
  UInt8.toNat_inj.symm

/-- Two bytes taken as a slice are the number that is read there. -/
theorem cipher_slice (bytes behind : Bytes) (offset : Nat) :
    ((slice bytes behind offset (offset + 2)).result.map fun s => byteAt s 0 * 256 + byteAt s 1) =
      Bytes.readUInt16BE (bytes ++ behind) offset := by
  by_cases h : offset + 2 ≤ (bytes ++ behind).length
  · have h0 : offset < (bytes ++ behind).length := by omega
    have h1 : offset + 1 < (bytes ++ behind).length := by omega
    have htwo : ((bytes ++ behind).take (offset + 2)).drop offset =
        [(bytes ++ behind)[offset], (bytes ++ behind)[offset + 1]] := by
      rw [List.drop_take, Nat.add_sub_cancel_left, List.drop_eq_getElem_cons h0,
        List.drop_eq_getElem_cons h1]
      rfl
    change (if _ then _ else _ : Option Bytes).map _ = _
    rw [if_pos ⟨by omega, h⟩, htwo, Bytes.readUInt16BE, List.drop_eq_getElem_cons h0,
      List.drop_eq_getElem_cons h1]
    rfl
  · change (if _ then _ else _ : Option Bytes).map _ = _
    rw [if_neg fun hfits => h hfits.2, Bytes.readUInt16BE_of_length (by omega)]
    rfl

theorem takes_serverStart {b : Bytes} (h : 6 < b.length) :
    (equalsFrom b 0 [22, 3, 3]).Takes b.length (decide (b.take 3 = tlsServerHandShakeStart)) :=
  takes_equalsFrom (by simp only [List.length_cons, List.length_nil]; omega)

/-- Where no cipher suite is read, the filter stays inside. -/
theorem takes_recognize (c : VisionConn) {buffer : Slice} (h : ¬ ReadsCipher buffer.bytes) :
    ∃ d, (recognize c buffer).Takes buffer.bytes.length d ∧ c.recognize buffer = some d := by
  unfold recognize VisionConn.recognize
  dsimp only
  by_cases hlen : 6 < buffer.bytes.length
  · have hbyte : ∀ i < 7,
        (index buffer.bytes i).Takes buffer.bytes.length (buffer.bytes.getD i 0) :=
      fun i hi => takes_byte (by omega)
    rw [if_pos hlen, if_pos hlen]
    by_cases hserver : buffer.bytes.take 3 = tlsServerHandShakeStart
    · have hstart := takes_serverStart hlen
      rw [decide_eq_true hserver] at hstart
      rw [if_pos hserver]
      by_cases hhello : byteAt buffer.bytes 5 = 2
      · have hbytes : ∀ i, (buffer.bytes.getD i 0).toNat = byteAt buffer.bytes i := fun _ => rfl
        have hread : ¬ (79 ≤ buffer.bytes.length ∧
            79 ≤ byteAt buffer.bytes 3 * 256 + byteAt buffer.bytes 4 + 5) :=
          fun hread => h ⟨hread.1, hserver, hhello, hread.2⟩
        rw [if_pos hhello, if_neg hread]
        refine ⟨_, hstart.bind ((hbyte 5 (by decide)).bind ?_), rfl⟩
        rw [if_pos ((byte_eq_iff _ _ _).mpr hhello)]
        refine (hbyte 3 (by decide)).bind ((hbyte 4 (by decide)).bind ?_)
        rw [hbytes, hbytes, if_neg hread]
        exact .pure _ _
      · rw [if_neg hhello]
        refine ⟨_, hstart.bind ((hbyte 5 (by decide)).bind ?_), rfl⟩
        rw [if_neg fun he => hhello ((byte_eq_iff _ _ _).mp he)]
        exact .pure _ _
    · have hstart := takes_serverStart hlen
      rw [decide_eq_false hserver] at hstart
      have hfront : (slice buffer.bytes buffer.behind 0 2).Takes buffer.bytes.length
          (buffer.bytes.take 2) := takes_front (by omega)
      rw [if_neg hserver]
      by_cases hclient : buffer.bytes.take 2 = tlsClientHandShakeStart
      · by_cases hhello : byteAt buffer.bytes 5 = 1
        · rw [if_pos ⟨hclient, hhello⟩]
          refine ⟨_, hstart.bind (hfront.bind ?_), rfl⟩
          rw [if_pos hclient]
          refine (hbyte 5 (by decide)).bind ?_
          rw [if_pos ((byte_eq_iff _ _ _).mpr hhello)]
          exact .pure _ _
        · rw [if_neg fun he => hhello he.2]
          refine ⟨_, hstart.bind (hfront.bind ?_), rfl⟩
          rw [if_pos hclient]
          refine (hbyte 5 (by decide)).bind ?_
          rw [if_neg fun he => hhello ((byte_eq_iff _ _ _).mp he)]
          exact .pure _ _
      · rw [if_neg fun he => hclient he.1]
        refine ⟨_, hstart.bind (hfront.bind ?_), rfl⟩
        rw [if_neg hclient]
        exact .pure _ _
  · rw [if_neg hlen, if_neg hlen]
    exact ⟨c, .pure _ _, rfl⟩

/-- Where one is read, the filter computes the same, and only that slice may lead outside. -/
theorem recognize_reads (c : VisionConn) {buffer : Slice} (h : ReadsCipher buffer.bytes) :
    (recognize c buffer).result = c.recognize buffer ∧
      ((recognize c buffer).Inside buffer.bytes.length ↔
        46 + byteAt buffer.bytes 43 ≤ buffer.bytes.length) := by
  obtain ⟨hlong, hserver, hhello, hremaining⟩ := h
  have hlen : 6 < buffer.bytes.length := by omega
  have hread : 79 ≤ buffer.bytes.length ∧
      79 ≤ byteAt buffer.bytes 3 * 256 + byteAt buffer.bytes 4 + 5 := ⟨hlong, hremaining⟩
  have hbyte : ∀ i < 79,
      (index buffer.bytes i).Takes buffer.bytes.length (buffer.bytes.getD i 0) :=
    fun i hi => takes_byte (by omega)
  have hbytes : ∀ i, (buffer.bytes.getD i 0).toNat = byteAt buffer.bytes i := fun _ => rfl
  have hstart := takes_serverStart hlen
  rw [decide_eq_true hserver] at hstart
  have h5 : buffer.bytes.getD 5 0 = 2 := (byte_eq_iff _ _ _).mpr hhello
  unfold recognize VisionConn.recognize
  dsimp only
  constructor
  · rw [if_pos hlen, hstart.result_bind, if_pos rfl, (hbyte 5 (by decide)).result_bind, if_pos h5,
      (hbyte 3 (by decide)).result_bind, (hbyte 4 (by decide)).result_bind, hbytes, hbytes,
      if_pos hread, (hbyte 43 (by decide)).result_bind, hbytes, if_pos hlen, if_pos hserver,
      if_pos hhello, if_pos hread, ← cipher_slice, Traced.result_bind, Option.map_map]
    cases (slice buffer.bytes buffer.behind (43 + byteAt buffer.bytes 43 + 1)
      (43 + byteAt buffer.bytes 43 + 3)).result with
    | none => rfl
    | some cipherSuite => rfl
  · rw [if_pos hlen, hstart.inside_bind, if_pos rfl, (hbyte 5 (by decide)).inside_bind, if_pos h5,
      (hbyte 3 (by decide)).inside_bind, (hbyte 4 (by decide)).inside_bind, hbytes, hbytes,
      if_pos hread, (hbyte 43 (by decide)).inside_bind, Traced.inside_bind, inside_slice, hbytes]
    constructor
    · intro hinside
      omega
    · exact fun hfits => ⟨by omega, fun _ _ => Traced.inside_pure _ _⟩

theorem result_recognize (c : VisionConn) (buffer : Slice) :
    (recognize c buffer).result = c.recognize buffer := by
  by_cases h : ReadsCipher buffer.bytes
  · exact (recognize_reads c h).1
  · obtain ⟨d, htakes, hd⟩ := takes_recognize c h
    rw [htakes.result, hd]

theorem inside_recognize (c : VisionConn) (buffer : Slice) :
    (recognize c buffer).Inside buffer.bytes.length ↔ SessionIdFits buffer.bytes := by
  unfold SessionIdFits
  by_cases h : ReadsCipher buffer.bytes
  · rw [(recognize_reads c h).2]
    exact (imp_iff_right h).symm
  · obtain ⟨d, htakes, -⟩ := takes_recognize c h
    exact iff_of_true htakes.inside fun hreads => absurd hreads h

/-- What is left of the server hello is cut at the end of the buffer. -/
theorem takes_scan (c : VisionConn) (buffer : Slice) :
    (scan c buffer).Takes buffer.bytes.length (c.scan buffer.bytes) := by
  unfold scan VisionConn.scan
  by_cases h : 0 < c.remainingServerHello
  · rw [if_pos h, if_pos h]
    refine (takes_front (Nat.min_le_right _ _)).bind ?_
    dsimp only
    split_ifs
    · exact .pure _ _
    · exact .pure _ _
    · exact .pure _ _
  · rw [if_neg h, if_neg h]
    exact .pure _ _

/-- The filter with its record computes what the filter does. -/
theorem result_filterTLS (c : VisionConn) (buffer : Slice) :
    (filterTLS c buffer).result = c.filterTLS buffer := by
  rw [filterTLS, VisionConn.filterTLS, Traced.result_bind, result_recognize]
  cases VisionConn.recognize
      { c with numberOfPacketToFilter := c.numberOfPacketToFilter - 1 } buffer with
  | none => rfl
  | some d => exact (takes_scan d buffer).result

theorem inside_filterTLS (c : VisionConn) (buffer : Slice) :
    (filterTLS c buffer).Inside buffer.bytes.length ↔ SessionIdFits buffer.bytes := by
  rw [filterTLS, Traced.inside_bind, inside_recognize]
  exact and_iff_left fun d _ => (takes_scan d buffer).inside

/-- A session id that fits does not even lead past the capacity. -/
theorem filterTLS_isSome (c : VisionConn) {buffer : Slice} (h : SessionIdFits buffer.bytes) :
    ∃ d, (filterTLS c buffer).result = some d := by
  have hover : ¬ Overruns buffer := by
    rintro ⟨hlen, hserver, h5, hremaining, hbehind⟩
    have hfits := h ⟨hlen, hserver, h5, hremaining⟩
    rw [List.length_append] at hbehind
    omega
  obtain ⟨d, hd⟩ := recognize_isSome
    { c with numberOfPacketToFilter := c.numberOfPacketToFilter - 1 } hover
  rw [result_filterTLS, VisionConn.filterTLS, hd]
  exact ⟨_, rfl⟩

/-- From whatever state the filter goes through some buffers, it stays inside all of them
exactly where the session ids fit. -/
theorem sniffing_inside_iff (c : VisionConn) (buffers : List Slice) :
    (∀ call ∈ calls c buffers, call.2.Inside call.1.bytes.length) ↔
      ∀ buffer ∈ buffers, SessionIdFits buffer.bytes := by
  induction buffers generalizing c with
  | nil => simp [calls]
  | cons buffer rest ih =>
      rw [calls, List.forall_mem_cons, List.forall_mem_cons, inside_filterTLS]
      refine and_congr_right fun hfits => ?_
      obtain ⟨d, hd⟩ := filterTLS_isSome c hfits
      rw [hd]
      exact ih d

/-- A server hello of 79 bytes that announces a session id of 255. -/
def oversizedHello : Bytes :=
  [0x16, 0x03, 0x03, 0x00, 0x4a, 0x02] ++ List.replicate 37 0 ++ [0xff] ++ List.replicate 35 0

/-- A fresh connection slices behind the end of it. -/
theorem oversized_outside :
    ¬ ∀ (uuid : UUID) (input rawIn : Bytes) (buffer : Slice),
      (filterTLS (newVisionConn uuid input rawIn) buffer).Inside buffer.bytes.length := by
  intro h
  have hinside := h ⟨List.replicate 16 0, rfl⟩ [] [] ⟨oversizedHello, []⟩
  exact absurd ((inside_filterTLS _ _).mp hinside) (by decide)

end DshClashProxy.Core.TlsSniffing
