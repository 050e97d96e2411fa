import DshClashProxy.Go.Reader

/-!
# Varints and the Hysteria response frame

Lengths travel as varints of one, two, four or eight bytes, whose two top bits tell which. The
reader asks for seven bytes behind the first of the longest form and hands them to a function
that takes eight, so it never reads one. Without one, the response frame is consumed to its end.
-/
namespace DshClashProxy.Core.HysteriaFrame

open Js Go

def varintLen (v : UInt64) : Nat :=
  if v ≤ 63 then 1 else if v ≤ 16383 then 2 else if v ≤ 1073741823 then 4 else 8

def appendVarint (b : Bytes) (v : UInt64) : Bytes :=
  if v ≤ 63 then b ++ [v.toUInt8]
  else if v ≤ 16383 then b ++ [(v >>> 8).toUInt8 ||| 0x40, v.toUInt8]
  else if v ≤ 1073741823 then
    b ++ [(v >>> 24).toUInt8 ||| 0x80, (v >>> 16).toUInt8, (v >>> 8).toUInt8, v.toUInt8]
  else
    b ++ [(v >>> 56).toUInt8 ||| 0xc0, (v >>> 48).toUInt8, (v >>> 40).toUInt8,
      (v >>> 32).toUInt8, (v >>> 24).toUInt8, (v >>> 16).toUInt8, (v >>> 8).toUInt8, v.toUInt8]

/-- `binary.BigEndian.Uint64`, whose bounds check asks for eight bytes. -/
def bigEndianUint64 (b : Bytes) : Reads UInt64 :=
  if b.length < 8 then throw .panic else return UInt64.ofNat (Bytes.natBE (b.take 8))

def readVarint : Reads UInt64 := do
  let b ← readFull 1
  let b0 := b.getD 0 0
  if b0 >>> 6 = 0 then return b0.toUInt64
  else if b0 >>> 6 = 1 then
    let rest ← readFull 1
    return ((b0 &&& 0x3f).toUInt64 <<< 8) ||| (rest.getD 0 0).toUInt64
  else if b0 >>> 6 = 2 then
    let rest ← readFull 3
    return ((b0 &&& 0x3f).toUInt64 <<< 24) ||| ((rest.getD 0 0).toUInt64 <<< 16) |||
      ((rest.getD 1 0).toUInt64 <<< 8) ||| (rest.getD 2 0).toUInt64
  else
    let rest ← readFull 7
    let low ← bigEndianUint64 rest
    return ((b0 &&& 0x3f).toUInt64 <<< 56) ||| low

/-- Skip a field of this length. No length that is read exceeds an `int64`. -/
def skip (length : UInt64) : Reads Unit :=
  if 0 < length then discardN length.toNat else pure ()

def remoteError (status : UInt8) : Error :=
  .other ("hysteria2 remote error status ".toList ++ Nat.toDigits 10 status.toNat)

def readHysteriaTCPResponse : Reads Unit := do
  let status ← readFull 1
  let msgLen ← readVarint
  skip msgLen
  let padLen ← readVarint
  skip padLen
  if status.getD 0 0 ≠ 0 then throw (.error (remoteError (status.getD 0 0)))
  else return ()

/-! ## Varints -/

/-- The forms of a varint that can be read. -/
inductive VarintForm where
  | one
  | two
  | four
  deriving DecidableEq

namespace VarintForm

def size : VarintForm → Nat
  | one => 1
  | two => 2
  | four => 4

/-- What stands in the two top bits. -/
def tag : VarintForm → Nat
  | one => 0
  | two => 1
  | four => 2

/-- The first value that is too large for the form. -/
def bound (form : VarintForm) : Nat := 2 ^ (8 * form.size - 2)

/-- A value in this form, minimal or not. -/
def encode (form : VarintForm) (n : Nat) : Bytes :=
  Bytes.uintBE form.size (form.tag * form.bound + n)

end VarintForm

/-- The round trip of a value through any reader whose stream starts with its varint. -/
def RoundTrips (v : UInt64) : Prop :=
  (appendVarint [] v).length = varintLen v ∧
    ∀ (r : Reader) following, r.content = appendVarint [] v ++ following →
      ∃ r' : Reader, readVarint r = (.ok v, r') ∧ r'.content = following

/-! ## Bits -/

/-- The two top bits and the six others of a first byte. -/
theorem firstByte (k : Fin 64) :
    UInt8.ofNat k.val >>> 6 = 0 ∧
      (UInt8.ofNat (64 + k.val) >>> 6 = 1 ∧
        UInt8.ofNat (64 + k.val) &&& 0x3f = UInt8.ofNat k.val) ∧
      UInt8.ofNat (128 + k.val) >>> 6 = 2 ∧
        UInt8.ofNat (128 + k.val) &&& 0x3f = UInt8.ofNat k.val := by
  revert k
  decide

theorem setTag (k : Fin 64) :
    UInt8.ofNat k.val ||| 0x40 = UInt8.ofNat (64 + k.val) ∧
      UInt8.ofNat k.val ||| 0x80 = UInt8.ofNat (128 + k.val) := by
  revert k
  decide

/-- The longest form is neither of the others. -/
theorem longestForm (k : Fin 256) :
    (UInt8.ofNat k.val ||| 0xc0) >>> 6 ≠ 0 ∧ (UInt8.ofNat k.val ||| 0xc0) >>> 6 ≠ 1 ∧
      (UInt8.ofNat k.val ||| 0xc0) >>> 6 ≠ 2 := by
  revert k
  decide +kernel

/-- Bytes next to each other do not overlap. -/
theorem shift_or {a b i : Nat} (hb : b < 2 ^ i) : a <<< i ||| b = a * 2 ^ i + b := by
  rw [← Nat.shiftLeft_add_eq_or_of_lt hb, Nat.shiftLeft_eq]

theorem ofNat_congr {m n : Nat} (h : m % 256 = n % 256) : UInt8.ofNat m = UInt8.ofNat n := by
  apply UInt8.toNat_inj.mp
  rw [UInt8.toNat_ofNat', UInt8.toNat_ofNat']
  exact h

theorem join_two {n : Nat} (h : n < 2 ^ 14) :
    (UInt8.ofNat (n / 256)).toUInt64 <<< 8 ||| (UInt8.ofNat n).toUInt64 = UInt64.ofNat n := by
  apply UInt64.toNat_inj.mp
  have hlow : n % 256 < 2 ^ 8 := Nat.mod_lt _ (by decide)
  have hhigh : n / 256 % 256 = n / 256 := Nat.mod_eq_of_lt (by omega)
  have hshift : (n / 256) <<< 8 % 2 ^ 64 = (n / 256) <<< 8 := by
    rw [Nat.shiftLeft_eq]
    exact Nat.mod_eq_of_lt (by omega)
  simp only [UInt64.toNat_or, UInt64.toNat_shiftLeft, UInt8.toNat_toUInt64, UInt8.toNat_ofNat',
    UInt64.toNat_ofNat', UInt64.reduceToNat, Nat.reduceMod, hhigh, hshift, shift_or hlow]
  omega

theorem join_four {n : Nat} (h : n < 2 ^ 30) :
    (UInt8.ofNat (n / 2 ^ 24)).toUInt64 <<< 24 ||| (UInt8.ofNat (n / 2 ^ 16)).toUInt64 <<< 16 |||
      (UInt8.ofNat (n / 2 ^ 8)).toUInt64 <<< 8 ||| (UInt8.ofNat n).toUInt64 = UInt64.ofNat n := by
  apply UInt64.toNat_inj.mp
  have hshift : ∀ {a i : Nat}, a < 2 ^ 8 → i ≤ 24 → a <<< i % 2 ^ 64 = a <<< i := by
    intro a i ha hi
    rw [Nat.shiftLeft_eq]
    exact Nat.mod_eq_of_lt (lt_of_lt_of_le (Nat.mul_lt_mul_of_lt_of_le ha
      (Nat.pow_le_pow_right Nat.two_pos hi) (Nat.two_pow_pos 24)) (by decide))
  have hbyte : ∀ m, m % 2 ^ 8 < 2 ^ 8 := fun m => Nat.mod_lt _ (by decide)
  -- from the lowest byte up, each is joined to a number that stays below it
  have h₁ := shift_or (a := n / 2 ^ 8 % 2 ^ 8) (hbyte n)
  have h₂ := shift_or (a := n / 2 ^ 16 % 2 ^ 8) (i := 16)
    (show n / 2 ^ 8 % 2 ^ 8 * 2 ^ 8 + n % 2 ^ 8 < 2 ^ 16 by omega)
  have h₃ := shift_or (a := n / 2 ^ 24 % 2 ^ 8) (i := 24)
    (show n / 2 ^ 16 % 2 ^ 8 * 2 ^ 16 + (n / 2 ^ 8 % 2 ^ 8 * 2 ^ 8 + n % 2 ^ 8) < 2 ^ 24 by omega)
  simp only [UInt64.toNat_or, UInt64.toNat_shiftLeft, UInt8.toNat_toUInt64, UInt8.toNat_ofNat',
    UInt64.toNat_ofNat', UInt64.reduceToNat, Nat.reduceMod]
  rw [hshift (hbyte _) (by decide), hshift (hbyte _) (by decide), hshift (hbyte _) (by decide),
    Nat.or_assoc, Nat.or_assoc, h₁, h₂, h₃]
  omega

/-! ## Reading a varint -/

theorem encode_one (n : Nat) : VarintForm.one.encode n = [UInt8.ofNat n] := by
  rw [VarintForm.encode, VarintForm.tag, Nat.zero_mul, Nat.zero_add]
  rfl

theorem encode_two (n : Nat) :
    VarintForm.two.encode n = [UInt8.ofNat (64 + n / 256), UInt8.ofNat n] := by
  have hn : VarintForm.two.tag * VarintForm.two.bound + n = 2 ^ 14 + n := rfl
  rw [VarintForm.encode, hn]
  change [UInt8.ofNat ((2 ^ 14 + n) / 256), UInt8.ofNat (2 ^ 14 + n)] = _
  rw [ofNat_congr (m := (2 ^ 14 + n) / 256) (n := 64 + n / 256) (by omega),
    ofNat_congr (m := 2 ^ 14 + n) (n := n) (by omega)]

theorem encode_four (n : Nat) :
    VarintForm.four.encode n = [UInt8.ofNat (128 + n / 2 ^ 24), UInt8.ofNat (n / 2 ^ 16),
      UInt8.ofNat (n / 2 ^ 8), UInt8.ofNat n] := by
  have hn : VarintForm.four.tag * VarintForm.four.bound + n = 2 ^ 31 + n := rfl
  rw [VarintForm.encode, hn]
  change [UInt8.ofNat ((2 ^ 31 + n) / 256 / 256 / 256), UInt8.ofNat ((2 ^ 31 + n) / 256 / 256),
    UInt8.ofNat ((2 ^ 31 + n) / 256), UInt8.ofNat (2 ^ 31 + n)] = _
  rw [ofNat_congr (m := (2 ^ 31 + n) / 256 / 256 / 256) (n := 128 + n / 2 ^ 24) (by omega),
    ofNat_congr (m := (2 ^ 31 + n) / 256 / 256) (n := n / 2 ^ 16) (by omega),
    ofNat_congr (m := (2 ^ 31 + n) / 256) (n := n / 2 ^ 8) (by omega),
    ofNat_congr (m := 2 ^ 31 + n) (n := n) (by omega)]

/-- A varint is read in each of its forms that has at most four bytes. -/
theorem exactly_varint (form : VarintForm) {n : Nat} (h : n < form.bound) :
    Exactly readVarint (form.encode n) (.ok (UInt64.ofNat n)) := by
  cases form with
  | one =>
      have h : n < 64 := h
      obtain ⟨htag, -⟩ := firstByte ⟨n, h⟩
      have hvalue : (UInt8.ofNat n).toUInt64 = UInt64.ofNat n := by
        apply UInt64.toNat_inj.mp
        rw [UInt8.toNat_toUInt64, UInt8.toNat_ofNat', UInt64.toNat_ofNat']
        omega
      rw [encode_one]
      refine (@exactly_readFull [UInt8.ofNat n] 1 rfl).bind_nil ?_
      simp only [List.getD_cons_zero, htag, if_true, hvalue]
      exact exactly_pure _
  | two =>
      have h : n < 2 ^ 14 := h
      obtain ⟨-, ⟨htag, hbits⟩, -⟩ := firstByte ⟨n / 256, by omega⟩
      rw [encode_two]
      refine (@exactly_readFull [UInt8.ofNat (64 + n / 256)] 1 rfl).bind ?_
      simp only [List.getD_cons_zero, htag, hbits]
      refine (@exactly_readFull [UInt8.ofNat n] 1 rfl).bind_nil ?_
      simp only [List.getD_cons_zero, join_two h]
      exact exactly_pure _
  | four =>
      have h : n < 2 ^ 30 := h
      obtain ⟨-, -, htag, hbits⟩ := firstByte ⟨n / 2 ^ 24, by omega⟩
      rw [encode_four]
      refine (@exactly_readFull [UInt8.ofNat (128 + n / 2 ^ 24)] 1 rfl).bind ?_
      simp only [List.getD_cons_zero, htag, hbits]
      refine (@exactly_readFull [UInt8.ofNat (n / 2 ^ 16), UInt8.ofNat (n / 2 ^ 8),
        UInt8.ofNat n] 3 rfl).bind_nil ?_
      simp only [List.getD_cons_zero, List.getD_cons_succ, join_four h]
      exact exactly_pure _

/-! ## Round trips -/

theorem toUInt8_shiftRight (v : UInt64) (k : UInt64) :
    (v >>> k).toUInt8 = UInt8.ofNat (v.toNat >>> (k.toNat % 64)) := by
  apply UInt8.toNat_inj.mp
  rw [UInt64.toNat_toUInt8, UInt64.toNat_shiftRight, UInt8.toNat_ofNat']

/-- A value below 2 ^ 30 is appended in one of the forms that are read. -/
theorem appendVarint_form {v : UInt64} (h : v.toNat < 2 ^ 30) :
    ∃ form : VarintForm, v.toNat < form.bound ∧ appendVarint [] v = form.encode v.toNat ∧
      varintLen v = form.size := by
  have h8 : (v >>> 8).toUInt8 = UInt8.ofNat (v.toNat / 2 ^ 8) := by
    rw [toUInt8_shiftRight, Nat.shiftRight_eq_div_pow]
    rfl
  have h16 : (v >>> 16).toUInt8 = UInt8.ofNat (v.toNat / 2 ^ 16) := by
    rw [toUInt8_shiftRight, Nat.shiftRight_eq_div_pow]
    rfl
  have h24 : (v >>> 24).toUInt8 = UInt8.ofNat (v.toNat / 2 ^ 24) := by
    rw [toUInt8_shiftRight, Nat.shiftRight_eq_div_pow]
    rfl
  have h63 : v ≤ 63 ↔ v.toNat ≤ 63 := UInt64.le_iff_toNat_le
  have h16383 : v ≤ 16383 ↔ v.toNat ≤ 16383 := UInt64.le_iff_toNat_le
  have hmax : v ≤ 1073741823 := UInt64.le_iff_toNat_le.mpr (by change v.toNat ≤ 1073741823; omega)
  by_cases h1 : v.toNat ≤ 63
  · have hv := h63.mpr h1
    refine ⟨.one, show v.toNat < 64 by omega, ?_, if_pos hv⟩
    rw [appendVarint, if_pos hv, encode_one]
    rfl
  · have hv := mt h63.mp h1
    by_cases h2 : v.toNat ≤ 16383
    · have hv' := h16383.mpr h2
      obtain ⟨htag, -⟩ := setTag ⟨v.toNat / 2 ^ 8, by omega⟩
      refine ⟨.two, show v.toNat < 2 ^ 14 by omega, ?_, by
        rw [varintLen, if_neg hv, if_pos hv']
        rfl⟩
      rw [appendVarint, if_neg hv, if_pos hv', encode_two, h8, htag]
      rfl
    · have hv' := mt h16383.mp h2
      obtain ⟨-, htag⟩ := setTag ⟨v.toNat / 2 ^ 24, by omega⟩
      refine ⟨.four, h, ?_, by rw [varintLen, if_neg hv, if_neg hv', if_pos hmax]; rfl⟩
      rw [appendVarint, if_neg hv, if_neg hv', if_pos hmax, encode_four, h8, h16, h24, htag]
      rfl

/-- Eight bytes make the reader panic. -/
theorem exactly_panic (b : UInt8) {rest : Bytes} (hl : rest.length = 7) :
    Exactly readVarint ((b ||| 0xc0) :: rest) (.error .panic) := by
  obtain ⟨h0, h1, h2⟩ := longestForm ⟨b.toNat, b.toNat_lt⟩
  rw [UInt8.ofNat_toNat] at h0 h1 h2
  refine (@exactly_readFull [b ||| 0xc0] 1 rfl).bind ?_
  simp only [List.getD_cons_zero, if_neg h0, if_neg h1, if_neg h2]
  refine (exactly_readFull hl).bind_nil ?_
  have hshort : rest.length < 8 := by omega
  have hpanic : bigEndianUint64 rest = throw .panic := if_pos hshort
  rw [hpanic]
  exact Exactly.bind_throw _ (exactly_throw _)

/-- A value is read back exactly when its varint has at most four bytes. -/
theorem readVarint_inverts_iff (v : UInt64) : RoundTrips v ↔ v.toNat < 2 ^ 30 := by
  constructor
  · intro h
    by_contra hlarge
    have h63 : ¬ v ≤ 63 := fun hv => by
      have : v.toNat ≤ 63 := UInt64.le_iff_toNat_le.mp hv
      omega
    have h16383 : ¬ v ≤ 16383 := fun hv => by
      have : v.toNat ≤ 16383 := UInt64.le_iff_toNat_le.mp hv
      omega
    have hmax : ¬ v ≤ 1073741823 := fun hv => by
      have : v.toNat ≤ 1073741823 := UInt64.le_iff_toNat_le.mp hv
      omega
    have hb : appendVarint [] v = ((v >>> 56).toUInt8 ||| 0xc0) :: [(v >>> 48).toUInt8,
        (v >>> 40).toUInt8, (v >>> 32).toUInt8, (v >>> 24).toUInt8, (v >>> 16).toUInt8,
        (v >>> 8).toUInt8, v.toUInt8] := by
      rw [appendVarint, if_neg h63, if_neg h16383, if_neg hmax]
      rfl
    obtain ⟨-, hreads⟩ := h
    rw [hb] at hreads
    obtain ⟨r', hr, -⟩ := hreads { pieces := [_] } [] rfl
    obtain ⟨r'', hr', -⟩ := (@exactly_panic (v >>> 56).toUInt8
      [_, _, _, _, _, _, _] rfl).takes { pieces := [_] } [] rfl
    rw [hr] at hr'
    cases hr'
  · intro h
    obtain ⟨form, hfits, hb, hlen⟩ := appendVarint_form h
    refine ⟨?_, fun r following hc => ?_⟩
    · rw [hb, hlen, VarintForm.encode, Bytes.length_uintBE]
    · rw [hb] at hc
      obtain ⟨r', hr, hbehind⟩ := (exactly_varint form hfits).takes r following hc
      rw [UInt64.ofNat_toNat] at hr
      exact ⟨r', hr, hbehind.content⟩

/-- The first length that takes eight bytes. -/
theorem length_panics : ¬ ∀ v : UInt64, v.toNat < 2 ^ 62 → RoundTrips v := by
  intro h
  exact absurd ((readVarint_inverts_iff 0x40000000).mp (h _ (by decide))) (by decide)

/-! ## The response frame -/

/-- A response: its lengths are in any form that is read. -/
structure Response where
  status : UInt8
  msgForm : VarintForm
  msg : Bytes
  padForm : VarintForm
  padding : Bytes
  msg_fits : msg.length < msgForm.bound
  padding_fits : padding.length < padForm.bound

namespace Response

def encode (f : Response) : Bytes :=
  f.status :: (f.msgForm.encode f.msg.length ++ (f.msg ++
    (f.padForm.encode f.padding.length ++ f.padding)))

/-- Nil for status zero, and the remote error for any other. -/
def result (f : Response) : Except Fault Unit :=
  if f.status = 0 then .ok () else .error (.error (remoteError f.status))

end Response

theorem toNat_length {form : VarintForm} {n : Nat} (h : n < form.bound) :
    (UInt64.ofNat n).toNat = n := by
  have hle : form.bound ≤ 2 ^ 64 := by cases form <;> decide
  exact UInt64.toNat_ofNat_of_lt' (lt_of_lt_of_le h hle)

theorem exactly_skip {field : Bytes} {form : VarintForm} (h : field.length < form.bound) :
    Exactly (skip (UInt64.ofNat field.length)) field (.ok ()) := by
  have hn := toNat_length h
  have hpos : 0 < UInt64.ofNat field.length ↔ 0 < field.length := by
    rw [UInt64.lt_iff_toNat_lt, hn]
    rfl
  rw [skip, hn]
  by_cases h0 : 0 < field.length
  · rw [if_pos (hpos.mpr h0)]
    exact exactly_discardN rfl
  · rw [if_neg (mt hpos.mp h0), List.length_eq_zero_iff.mp (Nat.eq_zero_of_not_pos h0)]
    exact exactly_pure ()

/-- The reader takes the whole frame, and then looks at the status. -/
theorem exactly_response (f : Response) : Exactly readHysteriaTCPResponse f.encode f.result := by
  refine (@exactly_readFull [f.status] 1 rfl).bind ?_
  refine (exactly_varint f.msgForm f.msg_fits).bind ?_
  refine (exactly_skip f.msg_fits).bind ?_
  refine (exactly_varint f.padForm f.padding_fits).bind ?_
  refine (exactly_skip f.padding_fits).bind_nil ?_
  simp only [List.getD_cons_zero, Response.result]
  by_cases h : f.status = 0
  · rw [if_neg (not_not.mpr h), if_pos h]
    exact exactly_pure ()
  · rw [if_pos h, if_neg h]
    exact exactly_throw _

/-- However the stream is cut, a response is consumed to its end and no further, and a stream
that ends inside it is an error. -/
theorem response_consumed (f : Response) :
    (∀ (r : Reader) payload, r.content = f.encode ++ payload →
      ∃ result, ∃ r' : Reader, readHysteriaTCPResponse r = (result, r') ∧ r'.content = payload ∧
        result ≠ .error .panic ∧ (result = .ok () ↔ f.status = 0)) ∧
    ∀ (r : Reader) missing, f.encode = r.content ++ missing → missing ≠ [] →
      ∃ e r', readHysteriaTCPResponse r = (.error (.error e), r') := by
  refine ⟨fun r payload hc => ?_, (exactly_response f).needs⟩
  obtain ⟨r', hr, hb⟩ := (exactly_response f).takes r payload hc
  refine ⟨f.result, r', hr, hb.content, ?_, ?_⟩
  · rw [Response.result]
    split <;> nofun
  · rw [Response.result]
    split
    · next h => exact iff_of_true rfl h
    · next h => exact iff_of_false nofun h

end DshClashProxy.Core.HysteriaFrame
