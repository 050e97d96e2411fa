import DshClashProxy.Core.InboundHost

/-!
# Addresses in the upstream handshakes

`encodeAddr` writes a target for the SOCKS5, Shadowsocks and Trojan handshakes: class,
address and port. It puts one group for every piece between the colons of an IPv6 literal
and one byte for the length of a name. The repository's own decoder gets the target back
for every IPv4 literal, for names of at most 255 bytes and for IPv6 literals of eight plain
pieces.
-/
namespace DshClashProxy.Core.EncodeAddr

open Js Js.Text ProxyServer Client InboundHost

/-- The byte `Buffer.from` stores for a number. -/
def byteOf (n : Number) : UInt8 := UInt8.ofBitVec (n.toInt32.setWidth 8)

/-- `[value >> 8, value & 0xff]`, as `Buffer.from` stores it. -/
def twoBytes (value : Number) : Bytes :=
  [UInt8.ofBitVec ((value.toInt32.sshiftRight 8).setWidth 8), byteOf value]

/-- `/^\d{1,3}(\.\d{1,3}){3}$/`, and no part above 255. -/
def isIp4 (host : Text) : Bool :=
  let parts := host.splitOn '.'
  parts.length = 4 &&
    parts.all (fun part => part ≠ [] && part.length ≤ 3 && part.all (Number.isDigit 10)) &&
    parts.all fun part => (Number.ofText part).le 255

/-- Address type, address and port. -/
def encodeAddr (host : Text) (port : Number) : Bytes :=
  if isIp4 host then
    0x01 :: (host.splitOn '.').map (fun part => byteOf (Number.ofText part)) ++ twoBytes port
  else if ':' ∈ host then
    0x04 :: (host.splitOn ':').flatMap (fun part => twoBytes (Number.parseHex part)) ++
      twoBytes port
  else
    let hostBytes := Bytes.utf8Encode host
    0x03 :: UInt8.ofNat hostBytes.length :: hostBytes ++ twoBytes port

/-! ## Hosts -/

/-- One to three decimal digits. -/
def SpellsOctet (b : UInt8) (s : Text) : Prop :=
  s ≠ [] ∧ s.length ≤ 3 ∧ s.all (Number.isDigit 10) = true ∧ Number.ofDigits 10 s = b.toNat

/-- The textual forms of four octets. -/
def SpellsIp4 (octets : Bytes) (s : Text) : Prop :=
  octets.length = 4 ∧ ∃ parts, List.Forall₂ SpellsOctet octets parts ∧ s = ['.'].intercalate parts

/-- A target named by a host text. -/
inductive Host where
  | ip4 (octets : Bytes)
  | ip6 (octets : Bytes) (h : octets.length = 16)
  | name (text : Text) (ne_nil : text ≠ []) (colonless : ':' ∉ text)
      (named : ∀ octets, ¬ SpellsIp4 octets text)

/-- The texts that name the target. -/
def Host.Spelled : Host → Text → Prop
  | ip4 octets, s => SpellsIp4 octets s
  | ip6 octets _, s => SpellsAddress (groups octets) s
  | name text _ _ _, s => s = text

/-- The address type of the target. -/
def Host.atyp : Host → UInt8
  | ip4 _ => 0x01
  | ip6 _ _ => 0x04
  | name _ _ _ _ => 0x03

/-- The text under which the decoder knows the target. -/
def Host.decoded : Host → Text
  | ip4 octets => dotted octets
  | ip6 octets _ => [':'].intercalate (groupTexts octets)
  | name text _ _ _ => text

/-- The decoder gets back the class and the value of the target, the port, and what follows. -/
structure RoundTrips (target : Host) (host : Text) (port : Nat) (rest : Bytes) : Prop where
  class_eq : (encodeAddr host (.finite port)).head? = some target.atyp
  value_eq : readSocks5Request ([0x05, 0x01, 0x00] ++ encodeAddr host (.finite port) ++ rest) =
    some (target.decoded, port, rest)

/-- A name fits its length byte, and an IPv6 literal has eight pieces, none of them dotted.
A dotted last piece does no harm where the address is all zeros. -/
def Fits (host : Text) : Host → Prop
  | .ip4 _ => True
  | .ip6 octets _ => (host.splitOn ':').length = 8 ∧ ('.' ∉ host ∨ ∀ o ∈ octets, o = 0)
  | .name text _ _ _ => (Bytes.utf8Encode text).length ≤ 255

/-! ## Two bytes -/

theorem toInt32_natCast (n : Nat) : Number.toInt32 (.finite n) = BitVec.ofNat 32 n := by
  simp [Number.toInt32]

theorem byteOf_natCast (n : Nat) : byteOf (.finite n) = UInt8.ofNat n := by
  apply UInt8.toBitVec_inj.mp
  apply BitVec.eq_of_toNat_eq
  rw [byteOf, toInt32_natCast]
  simp only [BitVec.toNat_setWidth, BitVec.toNat_ofNat, UInt8.toBitVec_ofNat']
  omega

theorem twoBytes_natCast {n : Nat} (h : n < 65536) : twoBytes (.finite n) = Bytes.uint16BE n := by
  have hhi : UInt8.ofBitVec (((BitVec.ofNat 32 n).sshiftRight 8).setWidth 8) =
      UInt8.ofNat (n / 256) := by
    apply UInt8.toBitVec_inj.mp
    apply BitVec.eq_of_toNat_eq
    have hmsb : (BitVec.ofNat 32 n).msb = false := by
      rw [BitVec.msb_eq_false_iff_two_mul_lt, BitVec.toNat_ofNat]
      omega
    simp only [BitVec.toNat_setWidth, BitVec.sshiftRight_eq_of_msb_false hmsb,
      BitVec.toNat_ushiftRight, BitVec.toNat_ofNat, UInt8.toBitVec_ofNat',
      Nat.shiftRight_eq_div_pow]
    omega
  rw [twoBytes, byteOf_natCast, toInt32_natCast, hhi]
  rfl

/-- Any two bytes are those of the number they make up. -/
theorem exists_uint16BE (value : Number) : ∃ n < 65536, twoBytes value = Bytes.uint16BE n := by
  obtain ⟨hi, lo, h⟩ : ∃ hi lo, twoBytes value = [hi, lo] := ⟨_, _, rfl⟩
  have hhi := hi.toNat_lt
  have hlo := lo.toNat_lt
  exact ⟨hi.toNat * 256 + lo.toNat, by omega, by rw [h, Bytes.uint16BE_toNat]⟩

theorem uint16BE_injective {a b : Nat} (ha : a < 65536) (hb : b < 65536)
    (h : Bytes.uint16BE a = Bytes.uint16BE b) : a = b := by
  have h1 := Bytes.readUInt16BE_uint16BE ha
  rw [h, Bytes.readUInt16BE_uint16BE hb] at h1
  exact (Option.some.inj h1).symm

theorem flatMap_uint16BE_injective {ns ms : List Nat} (hn : ∀ n ∈ ns, n < 65536)
    (hm : ∀ m ∈ ms, m < 65536) (h : ns.flatMap Bytes.uint16BE = ms.flatMap Bytes.uint16BE) :
    ns = ms := by
  induction ns generalizing ms with
  | nil =>
      cases ms with
      | nil => rfl
      | cons m ms => cases h
  | cons n ns ih =>
      cases ms with
      | nil => cases h
      | cons m ms =>
          rw [List.flatMap_cons, List.flatMap_cons] at h
          obtain ⟨hh, ht⟩ := List.append_inj h rfl
          rw [uint16BE_injective (hn n (by simp)) (hm m (by simp)) hh,
            ih (fun n h => hn n (List.mem_cons_of_mem _ h))
              (fun m h => hm m (List.mem_cons_of_mem _ h)) ht]

/-- The sixteen bytes of an address are those of its groups. -/
theorem flatMap_groups {octets : Bytes} (h : octets.length = 16) :
    (groups octets).flatMap Bytes.uint16BE = octets := by
  match octets, h with
  | [a, b, c, d, e, f, g, h, i, j, k, l, m, n, o, p], _ =>
      simp [groups, List.range_succ, Bytes.readUInt16BE, Bytes.uint16BE_toNat]

/-! ## The pieces of an IPv6 literal -/

/-- A piece is read as this group; an empty piece is read as zero. -/
def Piece (n : Nat) (s : Text) : Prop := SpellsGroup n s ∨ n = 0 ∧ s = []

theorem spellsGroup_lt {n : Nat} {s : Text} (h : SpellsGroup n s) : n < 65536 := by
  obtain ⟨_, hl, hd, rfl⟩ := h
  calc Number.ofDigits 16 s < 16 ^ s.length := Number.ofDigits_lt (List.all_eq_true.mp hd)
    _ ≤ 16 ^ 4 := Nat.pow_le_pow_right (by decide) hl

theorem Piece.lt {n : Nat} {s : Text} (h : Piece n s) : n < 65536 := by
  rcases h with h | ⟨rfl, _⟩
  · exact spellsGroup_lt h
  · decide

/-- The digits of a piece are neither colons nor dots. -/
theorem Piece.digits {n : Nat} {s : Text} (h : Piece n s) :
    ∀ c ∈ s, Number.isDigit 16 c = true := by
  rcases h with h | ⟨_, rfl⟩
  · exact List.all_eq_true.mp h.2.2.1
  · simp

theorem Piece.twoBytes {n : Nat} {s : Text} (h : Piece n s) :
    twoBytes (Number.parseHex s) = Bytes.uint16BE n := by
  have hlt := h.lt
  rcases h with ⟨hne, _, hd, rfl⟩ | ⟨rfl, rfl⟩
  · rw [Number.parseHex_of_digits hne (List.all_eq_true.mp hd),
      Number.round_natCast (hlt.trans (by decide)), twoBytes_natCast hlt]
  · rfl

def encodePieces (pieces : List Text) : Bytes :=
  pieces.flatMap fun part => twoBytes (Number.parseHex part)

/-- What holds of the second of two related entries holds throughout the second list. -/
theorem forall_right {α β : Type} {R : α → β → Prop} {P : β → Prop} {as : List α} {bs : List β}
    (h : List.Forall₂ R as bs) (hp : ∀ a b, R a b → P b) : ∀ b ∈ bs, P b :=
  ((List.forall₂_and_left _ _).mp (h.flip.imp fun b a hr => ⟨hp a b hr, hr⟩)).1

theorem encodePieces_of {ns : List Nat} {ss : List Text} (h : List.Forall₂ Piece ns ss) :
    encodePieces ss = ns.flatMap Bytes.uint16BE := by
  induction h with
  | nil => rfl
  | cons hp _ ih =>
      rw [encodePieces, List.flatMap_cons, List.flatMap_cons, hp.twoBytes]
      exact congrArg (_ ++ ·) ih

theorem length_encodePieces (pieces : List Text) :
    (encodePieces pieces).length = 2 * pieces.length := by
  induction pieces with
  | nil => rfl
  | cons s rest ih =>
      rw [encodePieces, List.flatMap_cons, List.length_append, List.length_cons]
      change 2 + (encodePieces rest).length = _
      omega

/-- The pieces on one side of a double colon. -/
def side (ss : List Text) : List Text := if ss = [] then [[]] else ss

theorem side_ne_nil (ss : List Text) : side ss ≠ [] := by
  unfold side
  split
  · simp
  · assumption

theorem intercalate_side (ss : List Text) :
    [':'].intercalate (side ss) = [':'].intercalate ss := by
  unfold side
  split
  · next h => rw [h]; rfl
  · rfl

/-- The pieces of a literal with a double colon. -/
theorem splitOn_compressed {ls rs : List Text} (hl : ∀ s ∈ ls, ':' ∉ s)
    (hr : ∀ s ∈ rs, ':' ∉ s) :
    ([':'].intercalate ls ++ "::".toList ++ [':'].intercalate rs).splitOn ':' =
      side ls ++ [] :: side rs := by
  have hside : ∀ ss : List Text, (∀ s ∈ ss, ':' ∉ s) → ∀ s ∈ side ss, ':' ∉ s := by
    intro ss hs
    unfold side
    split
    · simp
    · exact hs
  have htext : [':'].intercalate ls ++ "::".toList ++ [':'].intercalate rs =
      [':'].intercalate (side ls ++ [] :: side rs) := by
    have hright : [':'].intercalate ([[]] ++ side rs) = ':' :: [':'].intercalate rs := by
      rw [intercalate_append (by simp) (side_ne_nil rs), intercalate_side]
      rfl
    rw [intercalate_append (side_ne_nil ls) (by simp), intercalate_side, List.append_assoc]
    exact congrArg (fun t => [':'].intercalate ls ++ ':' :: t) hright.symm
  rw [htext]
  refine List.splitOn_intercalate ':' (fun s hs => ?_) (by simp)
  rcases List.mem_append.mp hs with hs | hs
  · exact hside ls hl s hs
  · rcases List.mem_cons.mp hs with rfl | hs
    · simp
    · exact hside rs hr s hs

/-- The pieces that spell groups are plain, or all but a dotted last one are. -/
theorem spells_cases {ns : List Nat} {ss : List Text} (h : Spells ns ss) :
    List.Forall₂ SpellsGroup ns ss ∨ ∃ ms ts, ∃ a b c d : UInt8, List.Forall₂ SpellsGroup ms ts ∧
      ns = ms ++ [a.toNat * 256 + b.toNat, c.toNat * 256 + d.toNat] ∧
      ss = ts ++ [dotted [a, b, c, d]] := by
  induction h with
  | nil => exact Or.inl .nil
  | group hg _ ih =>
      rcases ih with ih | ⟨ms, ts, a, b, c, d, hf, rfl, rfl⟩
      · exact Or.inl (.cons hg ih)
      · exact Or.inr ⟨_ :: ms, _ :: ts, a, b, c, d, .cons hg hf, rfl, rfl⟩
  | quad a b c d => exact Or.inr ⟨[], [], a, b, c, d, .nil, rfl, rfl⟩

theorem colonless_of_digits {s : Text} {radix : Nat} (hr : radix ≤ 16)
    (h : ∀ c ∈ s, Number.isDigit radix c = true) : ':' ∉ s := by
  intro hm
  have hv : Number.digitValue ':' = 16 := by decide
  have := Number.digitValue_lt (h _ hm)
  omega

theorem dotless_of_digits {s : Text} (h : ∀ c ∈ s, Number.isDigit 16 c = true) : '.' ∉ s := by
  intro hm
  have hv : Number.digitValue '.' = 16 := by decide
  have := Number.digitValue_lt (h _ hm)
  omega

theorem colonless_dotted (octets : Bytes) : ':' ∉ dotted octets := by
  intro hm
  rcases mem_intercalate hm with h | ⟨p, hp, hc⟩
  · simp at h
  · obtain ⟨b, _, rfl⟩ := List.mem_map.mp hp
    exact absurd (Nat.isDigit_of_mem_toDigits (by decide) (by decide) hc) (by decide)

theorem colonless_spells {ns : List Nat} {ss : List Text} (h : Spells ns ss) :
    ∀ s ∈ ss, ':' ∉ s := by
  intro s hs hm
  have hne := chars_spells (P := fun c => c ≠ ':') (fun c hd hc => by rw [hc] at hd; cases hd)
    (by decide) h s hs
  exact hne ':' hm rfl

theorem colonless_groups {ns : List Nat} {ss : List Text} (h : List.Forall₂ SpellsGroup ns ss) :
    ∀ s ∈ ss, ':' ∉ s := colonless_spells (spells_of_groups h)

theorem pieces_of_groups {ns : List Nat} {ss : List Text} (h : List.Forall₂ SpellsGroup ns ss) :
    List.Forall₂ Piece ns ss := h.imp fun _ _ hg => Or.inl hg

/-- The groups that one side of a double colon is read as. -/
def sideGroups (ns : List Nat) : List Nat := if ns = [] then [0] else ns

theorem pieces_of_side {ns : List Nat} {ss : List Text} (h : List.Forall₂ SpellsGroup ns ss) :
    List.Forall₂ Piece (sideGroups ns) (side ss) := by
  cases h with
  | nil => exact .cons (Or.inr ⟨rfl, rfl⟩) .nil
  | cons hg ht => exact pieces_of_groups (.cons hg ht)

/-- Eight pieces without a dotted one spell the eight groups. With a dotted one the literal
starts with a double colon that stands for a single group. -/
inductive EightPieces (ns : List Nat) (pieces : List Text) : Prop where
  | plain (h : List.Forall₂ Piece ns pieces)
  | dotted (ms : List Nat) (ts : List Text) (a b c d : UInt8) (hm : ms.length = 5)
      (ht : List.Forall₂ Piece ms ts)
      (hn : ns = 0 :: ms ++ [a.toNat * 256 + b.toNat, c.toNat * 256 + d.toNat])
      (hp : pieces = [] :: [] :: ts ++ [InboundHost.dotted [a, b, c, d]])

theorem length_side {ns : List Nat} {ss : List Text} (h : List.Forall₂ SpellsGroup ns ss) :
    (side ss).length = (sideGroups ns).length := (pieces_of_side h).length_eq.symm

/-- With eight pieces the double colon stands for as many groups as it is read as. -/
theorem compressed_groups {left right : List Nat} {k : Nat} (hk : 0 < k)
    (hl : (left ++ List.replicate k 0 ++ right).length = 8)
    (h8 : (sideGroups left ++ 0 :: sideGroups right).length = 8) :
    left ++ List.replicate k 0 ++ right = sideGroups left ++ 0 :: sideGroups right := by
  simp only [List.length_append, List.length_replicate, List.length_cons] at hl h8
  cases left with
  | nil =>
      cases right with
      | nil => simp [sideGroups] at h8
      | cons r right =>
          simp only [sideGroups, if_true, List.length_cons, List.length_nil, reduceCtorEq,
            if_false] at hl h8
          obtain rfl : k = 2 := by omega
          rfl
  | cons l left =>
      cases right with
      | nil =>
          simp only [sideGroups, if_true, List.length_cons, List.length_nil, reduceCtorEq,
            if_false] at hl h8
          obtain rfl : k = 2 := by omega
          simp [sideGroups, List.replicate_succ]
      | cons r right =>
          simp only [sideGroups, List.length_cons, reduceCtorEq, if_false] at hl h8
          obtain rfl : k = 1 := by omega
          simp [sideGroups]

theorem eightPieces {ns : List Nat} {text : Text} (h : SpellsAddress ns text)
    (hl : ns.length = 8) (h8 : (text.splitOn ':').length = 8) :
    EightPieces ns (text.splitOn ':') := by
  cases h with
  | @full _ ss hs =>
      have hne : ss ≠ [] := by
        rintro rfl
        cases hs
        simp at hl
      rw [List.splitOn_intercalate ':' (colonless_spells hs) hne] at h8 ⊢
      rcases spells_cases hs with hf | ⟨ms, ts, a, b, c, d, hf, rfl, rfl⟩
      · exact .plain (pieces_of_groups hf)
      · have := hf.length_eq
        simp only [List.length_append, List.length_cons, List.length_nil] at hl h8
        omega
  | @compressed left right ls rs k hk hleft hright =>
      rw [splitOn_compressed (colonless_groups hleft) (colonless_spells hright)] at h8 ⊢
      rcases spells_cases hright with hf | ⟨ms, ts, a, b, c, d, hf, rfl, rfl⟩
      · have h8' : (sideGroups left ++ 0 :: sideGroups right).length = 8 := by
          rw [List.length_append, List.length_cons] at h8 ⊢
          rw [length_side hleft, length_side hf] at h8
          exact h8
        rw [compressed_groups hk hl h8']
        exact .plain (List.rel_append (pieces_of_side hleft)
          (.cons (Or.inr ⟨rfl, rfl⟩) (pieces_of_side hf)))
      · have hts := hf.length_eq
        have hside : side (ts ++ [dotted [a, b, c, d]]) = ts ++ [dotted [a, b, c, d]] :=
          if_neg (by simp)
        rw [hside] at h8 ⊢
        simp only [List.length_append, List.length_replicate, List.length_cons,
          List.length_nil] at hl h8
        cases hleft with
        | nil =>
            simp only [side, if_true, List.length_cons, List.length_nil] at hl h8
            obtain rfl : k = 1 := by omega
            exact .dotted ms ts a b c d (by omega) (pieces_of_groups hf) rfl rfl
        | cons hg ht =>
            have := ht.length_eq
            simp only [side, List.length_cons, reduceCtorEq, if_false] at hl h8
            omega

theorem encodePieces_append (a b : List Text) :
    encodePieces (a ++ b) = encodePieces a ++ encodePieces b := List.flatMap_append

theorem parseHex_zero_dot (t : Text) : Number.parseHex ('0' :: '.' :: t) = .finite 0 := by
  have hd : Number.isDigit 16 '.' = false := by decide
  have h0 : Number.isDigit 16 '0' = true := by decide
  have hv : Number.ofDigits 16 ['0'] = 0 := by decide
  rw [Number.parseHex, Text.trimStart_cons (by decide), Number.splitSign_of_isDigit h0]
  simp [hd, h0, hv, Number.signed, Number.round]

/-- A dotted piece is read up to its first dot. -/
theorem parseHex_dotted_zero (b c d : UInt8) :
    Number.parseHex (dotted [0, b, c, d]) = .finite 0 := by
  obtain ⟨t, ht⟩ : ∃ t, dotted [0, b, c, d] = '0' :: '.' :: t := by
    refine ⟨['.'].intercalate ([b, c, d].map fun b => decimal b.toNat), ?_⟩
    rw [dotted, List.map_cons]
    exact List.intercalate_cons_cons ..
  rw [ht, parseHex_zero_dot]

/-- The sixteen bytes are the groups they make up. -/
theorem groups_eq {octets : Bytes} (h : octets.length = 16) {ns : List Nat}
    (hn : ∀ n ∈ ns, n < 65536) (he : ns.flatMap Bytes.uint16BE = octets) : ns = groups octets := by
  refine flatMap_uint16BE_injective hn (fun m hm => ?_) (he.trans (flatMap_groups h).symm)
  obtain ⟨i, hi, rfl⟩ := List.mem_map.mp hm
  obtain ⟨a, b, _, hr⟩ := group_bytes h (List.mem_range.mp hi)
  have ha := a.toNat_lt
  have hb := b.toNat_lt
  rw [hr, Option.getD_some]
  omega

theorem pieces_lt {ns : List Nat} {ss : List Text} (h : List.Forall₂ Piece ns ss) :
    ∀ n ∈ ns, n < 65536 := forall_right h.flip fun _ _ hp => Piece.lt hp

/-- An address of sixteen zero bytes is one of eight zero groups. -/
theorem groups_eq_zero_iff {octets : Bytes} (h16 : octets.length = 16) :
    groups octets = List.replicate 8 0 ↔ ∀ o ∈ octets, o = 0 := by
  constructor
  · intro h o ho
    have he : (List.replicate 8 0).flatMap Bytes.uint16BE = octets := h ▸ flatMap_groups h16
    have hzeros : octets = List.replicate 16 0 := he.symm
    rw [hzeros] at ho
    exact List.eq_of_mem_replicate ho
  · intro h
    rw [List.eq_replicate_iff.mpr ⟨h16, h⟩]
    rfl

/-- A dotted last piece is lost, which changes nothing if it and all before it are zero. -/
theorem encodePieces_dotted {octets : Bytes} (h16 : octets.length = 16) {ms : List Nat}
    {ts : List Text} {a b c d : UInt8} (hm : ms.length = 5) (ht : List.Forall₂ Piece ms ts)
    (hn : groups octets = 0 :: ms ++ [a.toNat * 256 + b.toNat, c.toNat * 256 + d.toNat]) :
    encodePieces ([] :: [] :: ts ++ [dotted [a, b, c, d]]) = octets ↔ ∀ o ∈ octets, o = 0 := by
  obtain ⟨x, hx, hxe⟩ := exists_uint16BE (Number.parseHex (dotted [a, b, c, d]))
  have hzero : a = 0 → x = 0 := by
    rintro rfl
    rw [parseHex_dotted_zero] at hxe
    exact (uint16BE_injective hx (by decide) hxe.symm)
  have henc : encodePieces ([] :: [] :: ts ++ [dotted [a, b, c, d]]) =
      (0 :: 0 :: ms ++ [x]).flatMap Bytes.uint16BE := by
    have hempty : Piece 0 [] := Or.inr ⟨rfl, rfl⟩
    rw [encodePieces_append, encodePieces_of (.cons hempty (.cons hempty ht)),
      List.flatMap_append]
    refine congrArg _ ?_
    rw [encodePieces, List.flatMap_singleton, List.flatMap_singleton, hxe]
  have hlt : ∀ n ∈ 0 :: 0 :: ms ++ [x], n < 65536 := by
    intro n hn
    simp only [List.cons_append, List.mem_cons, List.mem_append, List.not_mem_nil, or_false] at hn
    rcases hn with rfl | rfl | hn | rfl
    · decide
    · decide
    · exact pieces_lt ht n hn
    · exact hx
  rw [henc, ← groups_eq_zero_iff h16]
  match ms, hm with
  | [m1, m2, m3, m4, m5], _ =>
      constructor
      · intro he
        have hg := (groups_eq h16 hlt he).trans hn
        simp only [List.cons_append, List.nil_append, List.cons.injEq, true_and, and_true] at hg
        obtain ⟨rfl, rfl, rfl, rfl, rfl, hq, hx⟩ := hg
        have ha : a = 0 := UInt8.toNat_inj.mp (by simp; omega)
        have hx0 := hzero ha
        rw [hn, ← hq, ← hx, hx0]
        rfl
      · intro he
        rw [he] at hn
        simp only [List.replicate, List.cons_append, List.nil_append, List.cons.injEq, true_and,
          and_true] at hn
        obtain ⟨rfl, rfl, rfl, rfl, rfl, hq, _⟩ := hn
        have ha : a = 0 := UInt8.toNat_inj.mp (by simp; omega)
        have he' := flatMap_groups h16
        rw [he] at he'
        rw [hzero ha, ← he']
        rfl

/-! ## Round trips -/

theorem dotless_of_groups {ns : List Nat} {text : Text}
    (h : List.Forall₂ Piece ns (text.splitOn ':')) : '.' ∉ text := by
  intro hm
  have hs := forall_right h fun _ _ hp => dotless_of_digits hp.digits
  have htext : [':'].intercalate (text.splitOn ':') = text := List.intercalate_splitOn ':'
  rw [← htext] at hm
  rcases mem_intercalate hm with hc | ⟨p, hp, hc⟩
  · simp at hc
  · exact hs p hp hc

/-- Eight pieces give the bytes of the address unless one of them is dotted. -/
theorem encodePieces_eq_iff {octets : Bytes} (h16 : octets.length = 16) {text : Text}
    (h : SpellsAddress (groups octets) text) (h8 : (text.splitOn ':').length = 8) :
    encodePieces (text.splitOn ':') = octets ↔ '.' ∉ text ∨ ∀ o ∈ octets, o = 0 := by
  cases eightPieces h (by simp [groups]) h8 with
  | plain hf =>
      exact iff_of_true ((encodePieces_of hf).trans (flatMap_groups h16))
        (Or.inl (dotless_of_groups hf))
  | dotted ms ts a b c d hm ht hn hp =>
      have hdot : '.' ∈ text := by
        have htext : [':'].intercalate (text.splitOn ':') = text := List.intercalate_splitOn ':'
        rw [← htext, hp, intercalate_append (by simp) (by simp), List.intercalate_singleton]
        exact List.mem_append_right _ (List.mem_cons_of_mem _ (by simp [dotted]))
      rw [hp, encodePieces_dotted h16 hm ht hn]
      exact ⟨Or.inr, fun h => h.resolve_left (absurd hdot)⟩

theorem colon_mem_of_address {ns : List Nat} {text : Text} (h : SpellsAddress ns text)
    (hl : 2 < ns.length) : ':' ∈ text := by
  cases h with
  | @full _ ss hs =>
      cases hs with
      | nil => simp at hl
      | @group n s ns' ss' hg hs' =>
          cases hs' with
          | nil => simp at hl
          | group _ _ => simp [List.intercalate_cons_cons]
          | quad => simp [List.intercalate_cons_cons]
      | quad => simp at hl
  | compressed k hk hleft hright => simp

theorem octet_dotless {b : UInt8} {s : Text} (h : SpellsOctet b s) : '.' ∉ s :=
  dotless_of_digits fun c hc => by
    have := Number.digitValue_lt (List.all_eq_true.mp h.2.2.1 c hc)
    exact decide_eq_true (by omega)

theorem octet_colonless {b : UInt8} {s : Text} (h : SpellsOctet b s) : ':' ∉ s :=
  colonless_of_digits (by decide) (List.all_eq_true.mp h.2.2.1)

theorem ofText_octet {b : UInt8} {s : Text} (h : SpellsOctet b s) :
    Number.ofText s = .finite b.toNat := by
  obtain ⟨hne, hl, hd, hv⟩ := h
  rw [Number.ofText_of_digits hne (List.all_eq_true.mp hd) (by omega), hv]

/-- The parts of an IPv4 literal. -/
theorem splitOn_ip4 {octets : Bytes} {s : Text} (h : SpellsIp4 octets s) :
    List.Forall₂ SpellsOctet octets (s.splitOn '.') := by
  obtain ⟨h4, parts, hp, rfl⟩ := h
  have hne : parts ≠ [] := by
    rintro rfl
    have := hp.length_eq
    rw [h4] at this
    cases this
  rw [List.splitOn_intercalate '.' (forall_right hp fun _ _ => octet_dotless) hne]
  exact hp

theorem colonless_ip4 {octets : Bytes} {s : Text} (h : SpellsIp4 octets s) : ':' ∉ s := by
  obtain ⟨_, parts, hp, rfl⟩ := h
  intro hm
  rcases mem_intercalate hm with hc | ⟨p, hp', hc⟩
  · simp at hc
  · exact forall_right hp (fun _ _ => octet_colonless) p hp' hc

theorem isIp4_of_spells {octets : Bytes} {s : Text} (h : SpellsIp4 octets s) :
    isIp4 s = true := by
  have hf := splitOn_ip4 h
  have hlen : (s.splitOn '.').length = 4 := hf.length_eq.symm.trans h.1
  simp only [isIp4, hlen, decide_true, Bool.true_and, Bool.and_eq_true, List.all_eq_true,
    decide_eq_true_eq]
  refine ⟨forall_right hf fun b p hp => ⟨⟨hp.1, hp.2.1⟩, List.all_eq_true.mp hp.2.2.1⟩,
    forall_right hf fun b p hp => ?_⟩
  rw [ofText_octet hp]
  exact (Number.le_natCast b.toNat 255).mpr (Nat.le_of_lt_succ b.toNat_lt)

theorem spells_of_isIp4 {s : Text} (h : isIp4 s = true) : ∃ octets, SpellsIp4 octets s := by
  simp only [isIp4, Bool.and_eq_true, decide_eq_true_eq, List.all_eq_true] at h
  obtain ⟨⟨hlen, hform⟩, hval⟩ := h
  refine ⟨(s.splitOn '.').map fun p => UInt8.ofNat (Number.ofDigits 10 p), by simpa using hlen,
    s.splitOn '.', ?_, (List.intercalate_splitOn '.').symm⟩
  rw [List.forall₂_map_left_iff, List.forall₂_same]
  intro p hp
  obtain ⟨⟨hne, hl⟩, hd⟩ := hform p hp
  have hle := hval p hp
  rw [Number.ofText_of_digits hne hd (by omega)] at hle
  have h255 : Number.ofDigits 10 p ≤ 255 := (Number.le_natCast _ 255).mp hle
  refine ⟨hne, hl, List.all_eq_true.mpr hd, ?_⟩
  rw [UInt8.toNat_ofNat']
  omega

theorem map_ofText_octets {octets : Bytes} {parts : List Text}
    (h : List.Forall₂ SpellsOctet octets parts) :
    parts.map (fun part => byteOf (Number.ofText part)) = octets := by
  induction h with
  | nil => rfl
  | cons ho _ ih => rw [List.map_cons, ih, ofText_octet ho, byteOf_natCast, UInt8.ofNat_toNat]

theorem encodeAddr_ip4 {octets : Bytes} {s : Text} (h : SpellsIp4 octets s) {port : Nat}
    (hp : port < 65536) : encodeAddr s (.finite port) = 0x01 :: octets ++ Bytes.uint16BE port := by
  rw [encodeAddr, if_pos (isIp4_of_spells h), map_ofText_octets (splitOn_ip4 h),
    twoBytes_natCast hp]

theorem encodeAddr_ip6 {s : Text} (h : ':' ∈ s) {port : Nat} (hp : port < 65536) :
    encodeAddr s (.finite port) = 0x04 :: encodePieces (s.splitOn ':') ++ Bytes.uint16BE port := by
  have h4 : isIp4 s ≠ true := fun hi => by
    obtain ⟨_, hs⟩ := spells_of_isIp4 hi
    exact colonless_ip4 hs h
  rw [encodeAddr, if_neg h4, if_pos h, twoBytes_natCast hp]
  rfl

theorem encodeAddr_name {s : Text} (hcolon : ':' ∉ s) (hs : ∀ octets, ¬ SpellsIp4 octets s)
    {port : Nat} (hp : port < 65536) :
    encodeAddr s (.finite port) = 0x03 :: UInt8.ofNat (Bytes.utf8Encode s).length ::
      Bytes.utf8Encode s ++ Bytes.uint16BE port := by
  have h4 : isIp4 s ≠ true := fun hi => by
    obtain ⟨_, h⟩ := spells_of_isIp4 hi
    exact hs _ h
  rw [encodeAddr, if_neg h4, if_neg hcolon, twoBytes_natCast hp]

theorem octets_eq_of_texts {octets octets' : Bytes} (h : octets.length = 16)
    (h' : octets'.length = 16)
    (he : [':'].intercalate (groupTexts octets') = [':'].intercalate (groupTexts octets)) :
    octets' = octets := by
  have hg := ipv6ToGroups_groupTexts h'
  rw [he, ipv6ToGroups_groupTexts h] at hg
  have hmap : (groups octets).map (fun n : Nat => Number.finite n) =
      (groups octets').map fun n : Nat => Number.finite n := Option.some.inj hg
  have hgroups : groups octets = groups octets' :=
    List.map_injective_iff.mpr (fun a b hab => by simpa using hab) hmap
  rw [← flatMap_groups h, ← flatMap_groups h', hgroups]

theorem length_of_readUInt16BE {b : Bytes} {offset n : Nat}
    (h : Bytes.readUInt16BE b offset = some n) : offset + 2 ≤ b.length := by
  by_contra hlt
  rw [Bytes.readUInt16BE_of_length (not_le.mp hlt)] at h
  cases h

/-- An IPv6 request has sixteen bytes of address between its head and its port. -/
theorem length_of_read_ip6 {header rest : Bytes} {host : Text} {port : Nat}
    (h3 : (header[3]? : Option UInt8) = some 0x04)
    (h : readSocks5Request header = some (host, port, rest)) :
    header.length = 22 + rest.length := by
  unfold readSocks5Request at h
  rw [h3] at h
  obtain ⟨n, hn, hr⟩ := Option.bind_eq_some_iff.mp h
  have hlen := length_of_readUInt16BE hn
  have hrest : header.drop 22 = rest := congrArg (fun r => r.2.2) (Option.some.inj hr)
  rw [← hrest, List.length_drop]
  omega

/-- A name request has as many bytes of name as its length byte says. -/
theorem length_of_read_name {header rest : Bytes} {host : Text} {port : Nat} {length : UInt8}
    (h3 : (header[3]? : Option UInt8) = some 0x03)
    (h4 : (header[4]? : Option UInt8) = some length)
    (h : readSocks5Request header = some (host, port, rest)) :
    header.length = 7 + length.toNat + rest.length := by
  unfold readSocks5Request at h
  rw [h3] at h
  obtain ⟨l, hl, h⟩ := Option.bind_eq_some_iff.mp h
  obtain rfl : length = l := Option.some.inj (h4.symm.trans hl)
  obtain ⟨n, hn, hr⟩ := Option.bind_eq_some_iff.mp h
  have hlen := length_of_readUInt16BE hn
  have hrest : header.drop (7 + length.toNat) = rest :=
    congrArg (fun r => r.2.2) (Option.some.inj hr)
  rw [← hrest, List.length_drop]
  omega

/-- An IPv6 literal gets back as its bytes exactly when it has eight pieces that give them. -/
theorem roundTrips_ip6 {octets : Bytes} (h16 : octets.length = 16) {host : Text}
    (h : SpellsAddress (groups octets) host) {port : Nat} (hp : port < 65536) (rest : Bytes) :
    RoundTrips (.ip6 octets h16) host port rest ↔ Fits host (.ip6 octets h16) := by
  have hcolon : ':' ∈ host := colon_mem_of_address h (by simp [groups])
  have henc := encodeAddr_ip6 hcolon hp
  have hlen := length_encodePieces (host.splitOn ':')
  constructor
  · rintro ⟨_, hv⟩
    rw [henc] at hv
    have hl := length_of_read_ip6 rfl hv
    simp only [List.length_append, List.length_cons, List.length_nil, Bytes.uint16BE, hlen] at hl
    have h8 : (host.splitOn ':').length = 8 := by omega
    rw [h8] at hlen
    have hread := (read_ip6 hlen hp rest).symm.trans hv
    obtain ⟨hhost, -⟩ := Prod.mk.inj (Option.some.inj hread)
    exact ⟨h8, (encodePieces_eq_iff h16 h h8).mp (octets_eq_of_texts h16 hlen hhost)⟩
  · rintro ⟨h8, hdot⟩
    have hoctets := (encodePieces_eq_iff h16 h h8).mpr hdot
    rw [hoctets] at henc
    refine ⟨by rw [henc]; rfl, ?_⟩
    rw [henc]
    exact read_ip6 h16 hp rest

theorem roundTrips_name {text : Text} {ne_nil : text ≠ []} {colonless : ':' ∉ text}
    {named : ∀ octets, ¬ SpellsIp4 octets text} {port : Nat} (hp : port < 65536) (rest : Bytes) :
    RoundTrips (.name text ne_nil colonless named) text port rest ↔
      Fits text (.name text ne_nil colonless named) := by
  have henc := encodeAddr_name colonless named hp
  constructor
  · intro h
    obtain ⟨_, hv⟩ := h
    rw [henc] at hv
    have hl := length_of_read_name rfl rfl hv
    simp only [List.length_append, List.length_cons, List.length_nil, Bytes.uint16BE,
      UInt8.toNat_ofNat'] at hl
    change (Bytes.utf8Encode text).length ≤ 255
    omega
  · intro hle
    refine ⟨by rw [henc]; rfl, ?_⟩
    rw [henc]
    refine (read_name hle hp rest).trans ?_
    rw [Bytes.utf8Decode_utf8Encode]
    rfl

theorem encodeAddr_roundTrips_iff (target : Host) (host : Text) (h : target.Spelled host)
    (port : Nat) (hp : port < 65536) (rest : Bytes) :
    RoundTrips target host port rest ↔ Fits host target := by
  cases target with
  | ip4 octets =>
      have h : SpellsIp4 octets host := h
      have henc := encodeAddr_ip4 h hp
      refine iff_of_true ⟨by rw [henc]; rfl, ?_⟩ trivial
      rw [henc]
      exact read_ip4 h.1 hp rest
  | ip6 octets h16 => exact roundTrips_ip6 h16 h hp rest
  | name text ne_nil colonless named =>
      have h : host = text := h
      subst host
      exact roundTrips_name hp rest

def loopback : Host := .ip6 [0, 0, 0, 0, 0, 0, 0, 0, 0, 0, 0, 0, 0, 0, 0, 1] rfl

theorem loopback_spelled : loopback.Spelled "0:0:0:0:0:0:0:1".toList := by
  have hz : SpellsGroup 0 "0".toList := by decide
  exact .full (.group hz (.group hz (.group hz (.group hz (.group hz (.group hz (.group hz
    (.group (show SpellsGroup 1 "1".toList by decide) .nil))))))))

theorem loopback_round_trips :
    RoundTrips loopback "0:0:0:0:0:0:0:1".toList 443 [0x16, 0x03] :=
  (encodeAddr_roundTrips_iff loopback _ loopback_spelled 443 (by decide) _).mpr
    ⟨by decide, Or.inl (by decide)⟩

/-- `::1` has three pieces, so the decoder takes the port for groups. -/
theorem double_colon_shifts_port :
    ¬ ∀ (target : Host) (host : Text) (port : Nat) (rest : Bytes), target.Spelled host →
      port < 65536 → RoundTrips target host port rest := by
  intro h
  have hspelled : loopback.Spelled "::1".toList :=
    @SpellsAddress.compressed [] [1] [] ["1".toList] 7 (by decide) .nil
      (.group (by decide) .nil)
  have hlen := (h loopback "::1".toList 443 [] hspelled (by decide)).value_eq
  exact absurd hlen (by decide +kernel)

end DshClashProxy.Core.EncodeAddr
