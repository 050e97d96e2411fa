import DshClashProxy.Core.Faces

/-!
# What the face of `vlessConnect` yields

`stripHeader` reads the response header by exact counts, and the loop behind it takes whatever
the reader holds. Neither sees where the stream was cut, so what the face yields and how it
ends are functions of the stream alone.
-/
namespace DshClashProxy.Core.VlessResponse

open Js ProxyServer Lib.ByteSource Transports Faces

def closed : Text := "connection closed while reading".toList

def unexpected (version : UInt8) : Text :=
  "vless: unexpected response version ".toList ++ decimal version.toNat

/-- What a response stream carries behind its header, or the error of a stream without one. -/
def answer : Bytes → Except Text Bytes
  | [] => .error closed
  | version :: rest =>
      if version ≠ 0x00 then .error (unexpected version)
      else match rest with
        | [] => .error closed
        | addonsLen :: rest =>
            if rest.length < addonsLen.toNat then .error closed
            else .ok (rest.drop addonsLen.toNat)

/-- The face yields this payload, in these pieces and no others, and ends with this result. -/
def FaceYields (chunks : List Bytes) (payload : Bytes) (result : Except Text Unit) : Prop :=
  ∃ out, out.flatten = payload ∧
    ∀ out' result', (vlessFace chunks).Runs out' result' ↔ out' = out ∧ result' = result

/-! ## The header -/

theorem takeFrom_short {count : Nat} {s : IterableSource} {rest : Bytes}
    (hc : IterableSource.source.content s = rest) (h : rest.length < count) :
    ∃ s', takeFrom count s = some (.error closed, s') := by
  rw [← hc] at h
  obtain ⟨s', hs⟩ := readFrom_short count s.pending s.iterator h
  exact ⟨s', congrArg some hs⟩

/-- The outcome of reading the header off a stream, and what is left where there is one. -/
def Reads (p : IterableSource.source.Reads Text Unit) (s : IterableSource)
    (result : Except Text Bytes) : Prop :=
  ∃ s' : IterableSource, p s = some (result.map fun _ => (), s') ∧
    ∀ payload, result = .ok payload → IterableSource.source.content s' = payload

/-- Skipping a number of bytes fails exactly where the stream has fewer. -/
theorem skip_reads {s : IterableSource} {rest : Bytes}
    (h : IterableSource.source.content s = rest) (count : Nat) :
    Reads (if 0 < count then takeFrom count >>= fun _ => pure () else pure ()) s
      (if rest.length < count then .error closed else .ok (rest.drop count)) := by
  by_cases h0 : 0 < count
  · rw [if_pos h0]
    by_cases hshort : rest.length < count
    · obtain ⟨s', hs⟩ := takeFrom_short h hshort
      rw [if_pos hshort]
      exact ⟨s', Source.bind_error _ hs, nofun⟩
    · have htake := consumes_takeFrom (rest.take count)
      rw [List.length_take_of_le (not_lt.mp hshort)] at htake
      rw [← List.take_append_drop count rest] at h
      obtain ⟨s', hc, hs⟩ := htake.bind_eq h
      rw [if_neg hshort]
      refine ⟨s', hs Unit _, fun payload hp => ?_⟩
      cases hp
      exact hc
  · obtain rfl : count = 0 := Nat.eq_zero_of_not_pos h0
    rw [if_neg h0, if_neg (Nat.not_lt_zero _), List.drop_zero]
    refine ⟨s, rfl, fun payload hp => ?_⟩
    cases hp
    exact h

theorem stripAddons_reads {s : IterableSource} {rest : Bytes}
    (h : IterableSource.source.content s = rest) :
    Reads stripAddons s (answer (0x00 :: rest)) := by
  cases rest with
  | nil =>
      obtain ⟨s', hs⟩ := takeFrom_short h Nat.one_pos
      exact ⟨s', Source.bind_error _ hs, nofun⟩
  | cons addonsLen rest =>
      obtain ⟨s₁, hc, hs⟩ := (consumes_takeFrom [addonsLen]).bind_eq h
      have hstrip : stripAddons s = _ := hs Unit _
      rw [Reads, hstrip]
      exact skip_reads hc addonsLen.toNat

/-- The header of any stream, version and addons. -/
theorem stripHeader_reads {s : IterableSource} {stream : Bytes}
    (h : IterableSource.source.content s = stream) : Reads stripHeader s (answer stream) := by
  cases stream with
  | nil =>
      obtain ⟨s', hs⟩ := takeFrom_short h Nat.one_pos
      exact ⟨s', Source.bind_error _ hs, nofun⟩
  | cons version rest =>
      obtain ⟨s₁, hc, hs⟩ := (consumes_takeFrom [version]).bind_eq h
      have hstrip : stripHeader s = _ := hs Unit _
      rw [Reads, hstrip]
      by_cases hv : version = 0x00
      · obtain ⟨s', hs', hp⟩ := stripAddons_reads hc
        rw [hv]
        exact ⟨s', hs', hp⟩
      · have hne : ¬ [version].head? = some 0x00 := fun he => hv (Option.some.inj he)
        have ha : answer (version :: rest) = .error (unexpected version) := if_pos hv
        rw [if_pos hne, ha]
        exact ⟨s₁, rfl, nofun⟩

/-! ## The face -/

theorem yields_of_runs {chunks out : List Bytes} {result : Except Text Unit}
    (h : (vlessFace chunks).Runs out result) : FaceYields chunks out.flatten result := by
  refine ⟨out, rfl, fun out' result' => ⟨fun h' => h'.unique h, ?_⟩⟩
  intro he
  rw [he.1, he.2]
  exact h

/-- What the face yields and how it ends depend on the stream alone. -/
theorem vlessFace_yields (chunks : List Bytes) :
    FaceYields chunks ((answer chunks.flatten).toOption.getD [])
      ((answer chunks.flatten).map fun _ => ()) := by
  have hcontent : IterableSource.source.content (iterableSource chunks) = chunks.flatten := rfl
  obtain ⟨reader, hs, hp⟩ := stripHeader_reads hcontent
  cases ha : answer chunks.flatten with
  | error message =>
      rw [ha] at hs
      have hnext : vlessNext ⟨iterableSource chunks, false⟩ =
          some (.error message, ⟨reader, true⟩) := by
        simp only [vlessNext, hs]
        rfl
      exact yields_of_runs (.threw hnext)
  | ok payload =>
      rw [ha] at hs
      obtain ⟨out, hi, hf⟩ := vlessNext_runs reader
      have hout : out.flatten = payload := hf.trans (hp payload ha)
      have hnext : vlessNext ⟨iterableSource chunks, false⟩ = vlessNext ⟨reader, true⟩ := by
        simp only [vlessNext, hs]
        rfl
      have hruns : (vlessFace chunks).Runs out (.ok ()) := by
        change Iterates vlessNext _ _ _
        cases hi with
        | done hn => exact .done (hnext.trans hn)
        | item hn hi => exact .item (hnext.trans hn) hi
      have := yields_of_runs hruns
      rwa [hout] at this

/-- However a stream is cut, the face strips a header of version zero off it, and yields
nothing of any other. -/
theorem yields_stripped (chunks : List Bytes) :
    (∀ (addonsLen : UInt8) (addons payload : Bytes), addons.length = addonsLen.toNat →
      chunks.flatten = 0x00 :: addonsLen :: (addons ++ payload) →
      FaceYields chunks payload (.ok ())) ∧
    ∀ (version : UInt8) (rest : Bytes), version ≠ 0x00 → chunks.flatten = version :: rest →
      FaceYields chunks [] (.error (unexpected version)) := by
  have h := vlessFace_yields chunks
  constructor
  · intro addonsLen addons payload hl hf
    have hlong : ¬ (addons ++ payload).length < addonsLen.toNat := by
      rw [List.length_append]
      omega
    have ha : answer chunks.flatten = .ok payload := by
      rw [hf]
      refine (if_neg hlong).trans ?_
      rw [← hl, List.drop_left]
    rw [ha] at h
    exact h
  · intro version rest hv hf
    have ha : answer chunks.flatten = .error (unexpected version) := by
      rw [hf]
      exact if_pos hv
    rw [ha] at h
    exact h

/-- One addon, and a first chunk that ends inside the header. -/
theorem hello_stripped :
    FaceYields [[0x00, 0x01], [], [0x07, 0x68], [0x69]] [0x68, 0x69] (.ok ()) ∧
      FaceYields [[0x05], [0x00]] [] (.error (unexpected 0x05)) :=
  ⟨(yields_stripped _).1 0x01 [0x07] [0x68, 0x69] rfl rfl,
    (yields_stripped _).2 0x05 [0x00] (by decide) rfl⟩

end DshClashProxy.Core.VlessResponse
