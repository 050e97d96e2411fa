import DshClashProxy.Core.CnCidrs
import DshClashProxy.Core.Vless

/-!
# The address that is judged and the address that is sent

The rules take a host for an IPv4 address when `Number` reads its four parts as octets, the
two encoders when its four parts are one to three digits. So a part such as `0x7f` makes an
address for the rules and a name for the upstream.
-/
namespace DshClashProxy.Core.SentAddress

open Js Js.Text Rules EncodeAddr Vless CnCidrs

/-- The big-endian bytes of a 32-bit number. -/
def bigEndian (ip : Nat) : Bytes := Bytes.uint16BE (ip / 65536) ++ Bytes.uint16BE ip

/-- Both encoders send the host as an IPv4 address. -/
def SentAsIp4 (host : Text) (port : Number) : Prop :=
  (encodeAddr host port).head? = some 0x01 ∧
    ∃ b, vmessEncodeAddr host port = .ok b ∧ b[2]? = some 0x01

/-- The address the rules judge is the address sent. -/
structure SentAsJudged (host : Text) (port : Number) : Prop where
  recognised : (ipv4ToInt host).isSome = true ↔ SentAsIp4 host port
  octets : ∀ ip, ipv4ToInt host = some ip → SentAsIp4 host port →
    ((encodeAddr host port).drop 1).take 4 = bigEndian ip ∧
      ∃ b, vmessEncodeAddr host port = .ok b ∧ b.drop 3 = bigEndian ip

/-- `Number` reads this part as an octet. -/
def ReadAsOctet (part : Text) : Prop :=
  ∃ n : Nat, n ≤ 255 ∧ Number.ofText part = .finite n

/-- One to three decimal digits. -/
def PlainPart (part : Text) : Prop :=
  part ≠ [] ∧ part.length ≤ 3 ∧ ∀ c ∈ part, Number.isDigit 10 c = true

/-- Where `Number` reads all of four parts as octets, they are written in plain digits. -/
def PlainOctets (host : Text) : Prop :=
  (host.splitOn '.').length = 4 → (∀ part ∈ host.splitOn '.', ReadAsOctet part) →
    ∀ part ∈ host.splitOn '.', PlainPart part

/-! ## What the rules recognise -/

theorem octet_isSome_iff (part : Text) : (octet part).isSome = true ↔ ReadAsOctet part := by
  constructor
  · intro h
    obtain ⟨n, hn⟩ := Option.isSome_iff_exists.mp h
    obtain ⟨i, hi, hrange⟩ := Option.bind_eq_some_iff.mp hn
    have hr : 0 ≤ i ∧ i ≤ 255 := by
      by_contra hc
      rw [if_neg hc] at hrange
      cases hrange
    cases hq : Number.ofText part with
    | finite q =>
        rw [hq, Number.toInt?] at hi
        have hden : q.den = 1 := by
          by_contra hc
          rw [if_neg hc] at hi
          cases hi
        rw [if_pos hden] at hi
        have hnum : q.num = i := Option.some.inj hi
        refine ⟨i.toNat, by omega, hq.trans (congrArg Number.finite ?_)⟩
        rw [← Rat.coe_int_num_of_den_eq_one hden, hnum]
        exact_mod_cast (Int.toNat_of_nonneg hr.1).symm
    | nan => rw [hq] at hi; cases hi
    | infinity negative => rw [hq] at hi; cases hi
  · intro h
    obtain ⟨n, hle, hn⟩ := h
    have hr : (0 : Int) ≤ n ∧ (n : Int) ≤ 255 := by omega
    rw [octet, hn, toInt?_natCast, Option.bind_some, if_pos hr]
    rfl

theorem ipv4ToInt_isSome_iff (host : Text) :
    (ipv4ToInt host).isSome = true ↔
      (host.splitOn '.').length = 4 ∧ ∀ part ∈ host.splitOn '.', ReadAsOctet part := by
  constructor
  · intro h
    unfold ipv4ToInt at h
    split at h
    · next a b c d hm =>
        have hf := mapM_eq_some_iff.mp hm
        refine ⟨hf.length_eq, fun part hp => (octet_isSome_iff part).mp ?_⟩
        exact forall_right hf.flip (P := fun s => (octet s).isSome = true)
          (fun n s hs => by rw [hs]; rfl) part hp
    · cases h
  · intro h
    obtain ⟨hlen, hall⟩ := h
    obtain ⟨p₁, p₂, p₃, p₄, hp⟩ := List.length_eq_four.mp hlen
    rw [hp] at hall
    have hsome : ∀ p ∈ [p₁, p₂, p₃, p₄], ∃ n, octet p = some n := fun p hm =>
      Option.isSome_iff_exists.mp ((octet_isSome_iff p).mpr (hall p hm))
    obtain ⟨a, ha⟩ := hsome p₁ (by simp)
    obtain ⟨b, hb⟩ := hsome p₂ (by simp)
    obtain ⟨c, hc⟩ := hsome p₃ (by simp)
    obtain ⟨d, hd⟩ := hsome p₄ (by simp)
    have hm : [p₁, p₂, p₃, p₄].mapM octet = some [a, b, c, d] :=
      mapM_eq_some_iff.mpr (.cons ha (.cons hb (.cons hc (.cons hd .nil))))
    rw [ipv4ToInt, hp, hm]
    rfl

/-! ## What the encoders send -/

/-- Both encoders use the same test. -/
theorem sentAsIp4_iff (host : Text) (port : Number) :
    SentAsIp4 host port ↔ isIp4 host = true := by
  constructor
  · intro h
    obtain ⟨hhead, -⟩ := h
    by_contra h4
    rw [encodeAddr, if_neg h4] at hhead
    split at hhead
    · cases hhead
    · cases hhead
  · intro h4
    rw [SentAsIp4, encodeAddr, vmessEncodeAddr, if_pos h4, if_pos h4]
    exact ⟨rfl, _, rfl, rfl⟩

theorem isIp4_iff (host : Text) :
    isIp4 host = true ↔ (host.splitOn '.').length = 4 ∧
      (∀ part ∈ host.splitOn '.', ReadAsOctet part) ∧
        ∀ part ∈ host.splitOn '.', PlainPart part := by
  constructor
  · intro h
    obtain ⟨octets, hs⟩ := spells_of_isIp4 h
    have hparts := splitOn_ip4 hs
    refine ⟨hparts.length_eq.symm.trans hs.1,
      forall_right hparts fun o p ho => ⟨o.toNat, Nat.le_of_lt_succ o.toNat_lt, ofText_octet ho⟩,
      forall_right hparts fun o p ho => ⟨ho.1, ho.2.1, List.all_eq_true.mp ho.2.2.1⟩⟩
  · intro h
    obtain ⟨hlen, hread, hplain⟩ := h
    simp only [isIp4, hlen, decide_true, Bool.true_and, Bool.and_eq_true, List.all_eq_true,
      decide_eq_true_eq]
    refine ⟨fun p hp => ⟨⟨(hplain p hp).1, (hplain p hp).2.1⟩, (hplain p hp).2.2⟩, fun p hp => ?_⟩
    obtain ⟨n, hn, hq⟩ := hread p hp
    rw [hq]
    exact (Number.le_natCast n 255).mpr hn

/-- The bytes of the number of four octets. -/
theorem bigEndian_value (a b c d : UInt8) : bigEndian (value [a, b, c, d]) = [a, b, c, d] := by
  have hb : ∀ (n : Nat) (o : UInt8), n % 256 = o.toNat → UInt8.ofNat n = o := by
    intro n o hn
    apply UInt8.toNat_inj.mp
    rw [UInt8.toNat_ofNat', ← hn]
  have h1 := a.toNat_lt
  have h2 := b.toNat_lt
  have h3 := c.toNat_lt
  have h4 := d.toNat_lt
  rw [value_octets, bigEndian, Bytes.uint16BE, Bytes.uint16BE, hb _ a (by omega),
    hb _ b (by omega), hb _ c (by omega), hb _ d (by omega)]
  rfl

/-- The address judged is the address sent exactly when no part that `Number` reads as an
octet is written in any other way than plain digits. -/
theorem sentAsJudged_iff (host : Text) (port : Number) :
    SentAsJudged host port ↔ PlainOctets host := by
  constructor
  · intro h hlen hread
    have hsent := h.recognised.mp ((ipv4ToInt_isSome_iff host).mpr ⟨hlen, hread⟩)
    exact ((isIp4_iff host).mp ((sentAsIp4_iff host port).mp hsent)).2.2
  · intro h
    refine ⟨?_, fun ip hip hsent => ?_⟩
    · rw [ipv4ToInt_isSome_iff, sentAsIp4_iff, isIp4_iff]
      exact ⟨fun ⟨hlen, hread⟩ => ⟨hlen, hread, h hlen hread⟩,
        fun ⟨hlen, hread, _⟩ => ⟨hlen, hread⟩⟩
    · have h4 := (sentAsIp4_iff host port).mp hsent
      obtain ⟨octets, hs⟩ := spells_of_isIp4 h4
      obtain ⟨a, b, c, d, rfl⟩ := List.length_eq_four.mp hs.1
      rw [ipv4ToInt_spelled hs] at hip
      obtain rfl := Option.some.inj hip
      rw [bigEndian_value, encodeAddr, vmessEncodeAddr, if_pos h4, if_pos h4,
        map_ofText_octets (splitOn_ip4 hs)]
      exact ⟨rfl, _, rfl, rfl⟩

/-- A loopback address for the rules goes out as a name. -/
theorem hex_octet_sent_as_name :
    ¬ ∀ (host : Text) (port : Number), ':' ∉ host → trim host = host →
      SentAsJudged host port := by
  intro h
  have hj := (h "0x7f.0.0.1".toList 443 (by decide) (by decide)).recognised
  have h4 : ¬ isIp4 "0x7f.0.0.1".toList = true := by decide
  exact h4 ((sentAsIp4_iff _ _).mp (hj.mp (by decide +kernel)))

end DshClashProxy.Core.SentAddress
