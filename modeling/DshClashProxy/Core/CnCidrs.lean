import DshClashProxy.Core.EncodeAddr
import DshClashProxy.Core.Rules
import DshClashProxy.Lib.Cidr
import Mathlib.Data.List.Sort

/-!
# The embedded domestic networks

Both lookups scan a sorted table and stop at the first base above the address. For IPv4 the
scan finds an address in every network that the packed list names. For IPv6 it passes over
every network whose base is not the address itself.
-/
namespace DshClashProxy.Core.CnCidrs

open Js Js.Text Rules EncodeAddr Lib.Cidr

/-! ## Networks -/

/-- The 32-bit number of four octets. -/
def value (octets : Bytes) : Nat := octets.foldl (fun n o => n * 256 + o.toNat) 0

/-- An IPv4 network without host bits in its base. -/
structure Cidr4 where
  base : Nat
  bits : Nat
  base_lt : base < 2 ^ 32
  bits_le : bits ≤ 32
  host_zero : HostZero 32 bits (bit 32 base)

def Cidr4.Contains (c : Cidr4) (ip : UInt32) : Prop :=
  SamePrefix c.bits (bit 32 ip.toNat) (bit 32 c.base)

/-- An IPv6 address, as eight groups. -/
abbrev Ip6 := {groups : List UInt16 // groups.length = 8}

/-- The bits of the address, the most significant first. -/
def Ip6.bit (a : Ip6) (i : Nat) : Bool :=
  match a.val[i / 16]? with
  | some g => g.toNat.testBit (15 - i % 16)
  | none => false

def Ip6.groups (a : Ip6) : List Nat := a.val.map UInt16.toNat

/-- The groups as the source holds them. -/
def Ip6.numbers (a : Ip6) : List Number := a.val.map fun g => .finite g.toNat

/-- An IPv6 network without host bits in its base. -/
structure Cidr6 where
  network : Ip6
  bits : Nat
  bits_le : bits ≤ 128
  host_zero : HostZero 128 bits network.bit

def Cidr6.Contains (c : Cidr6) (a : Ip6) : Prop := SamePrefix c.bits a.bit c.network.bit

instance (c : Cidr6) (a : Ip6) : Decidable (c.Contains a) :=
  inferInstanceAs (Decidable (SamePrefix c.bits a.bit c.network.bit))

/-- The row of the table. -/
def Cidr6.row (c : Cidr6) : List Number × Nat := (c.network.numbers, c.bits)

/-- The order in which the loader puts the rows: by groups, then by prefix. -/
def Cidr6.Precedes (c d : Cidr6) : Prop :=
  c.network.val < d.network.val ∨ c.network.val = d.network.val ∧ c.bits ≤ d.bits

/-- A table as the loader leaves it. -/
structure Table6 where
  entries : List Cidr6
  sorted : entries.Pairwise Cidr6.Precedes

def Table6.rows (t : Table6) : List (List Number × Nat) := t.entries.map Cidr6.row

/-! ## Packing -/

/-- The row of one line of the list, if it has one. -/
def packLine (line : Text) : Option (Nat × Int) :=
  let trimmed := trim line
  if trimmed.isEmpty then none
  else
    (indexOf trimmed '/').bind fun slash =>
      let ip := trimmed.take slash
      if !isIp4 ip then none
      else
        (Number.ofText (trimmed.drop (slash + 1))).toInt?.bind fun bits =>
          match (ip.splitOn '.').map fun part => ((Number.ofText part).toInt?.getD 0).toNat with
          | [a, b, c, d] => some (((a * 256 + b) * 256 + c) * 256 + d, bits)
          | _ => none

/-- The order of the rows, by address and then by prefix. -/
def rowLe (a b : Nat × Int) : Bool := a.1 < b.1 || a.1 = b.1 && a.2 ≤ b.2

def packCidrs (text : Text) : List (Nat × Int) :=
  ((text.splitOn '\n').filterMap packLine).mergeSort rowLe

/-- The table that is loaded from the packed list. No row of a canonical list has negative
bits. -/
def loaded (rows : List (Nat × Int)) : List (Nat × Nat) := rows.map fun r => (r.1, r.2.toNat)

/-- A decimal text of a number. -/
def SpellsNat (n : Nat) (s : Text) : Prop :=
  s ≠ [] ∧ s.all (Number.isDigit 10) = true ∧ Number.ofDigits 10 s = n

/-- `a.b.c.d/n` -/
def Cidr4.Spelled (c : Cidr4) (s : Text) : Prop :=
  ∃ octets ip bits, SpellsIp4 octets ip ∧ value octets = c.base ∧ SpellsNat c.bits bits ∧
    s = ip ++ '/' :: bits

/-- A line of the text lists the network. -/
def Cidr4.Listed (c : Cidr4) (text : Text) : Prop :=
  ∃ line ∈ text.splitOn '\n', c.Spelled (trim line)

/-- Every line with a slash lists a network. -/
def Canonical (text : Text) : Prop :=
  ∀ line ∈ text.splitOn '\n', '/' ∈ line → ∃ c : Cidr4, c.Spelled (trim line)

/-! ## IPv6 -/

/-- The first pair of groups that differ decides how the addresses compare. -/
theorem firstDifference_groups {as bs : List UInt16} (h : as.length = bs.length) :
    match firstDifference (as.map fun g => Number.finite g.toNat)
      (bs.map fun g => Number.finite g.toNat) with
    | none => as = bs
    | some (a, b) => as ≠ bs ∧ (a.lt b = true ↔ as < bs) := by
  induction as generalizing bs with
  | nil => exact (List.length_eq_zero_iff.mp h.symm).symm
  | cons a as ih =>
      obtain ⟨b, bs, rfl⟩ := List.exists_cons_of_ne_nil (List.ne_nil_of_length_eq_add_one h.symm)
      have ih := ih (Nat.succ.inj h)
      simp only [List.map_cons, firstDifference]
      by_cases hab : a = b
      · subst hab
        simp only [ne_eq, not_true_eq_false, if_false]
        split
        · next heq =>
            rw [heq] at ih
            rw [ih]
        · next heq =>
            rw [heq] at ih
            refine ⟨fun hc => ih.1 (List.cons.inj hc).2, ih.2.trans ?_⟩
            rw [List.cons_lt_cons_self]
      · have hne : Number.finite (a.toNat : ℚ) ≠ Number.finite b.toNat := by
          intro he
          have hq : (a.toNat : ℚ) = b.toNat := Number.finite.inj he
          exact hab (UInt16.toNat_inj.mp (by exact_mod_cast hq))
        rw [if_pos hne]
        refine ⟨fun hc => hab (List.cons.inj hc).1, ?_⟩
        have hlt : Number.lt (.finite a.toNat) (.finite b.toNat) = true ↔ a < b := by
          simp [Number.lt, UInt16.lt_iff_toNat_lt]
        rw [hlt, List.cons_lt_cons_iff]
        exact ⟨Or.inl, fun h => h.resolve_right fun hc => hab hc.1⟩

theorem samePrefix6_refl (bits : Nat) (groups : List Number) :
    samePrefix6 bits groups groups = true := by
  simp [samePrefix6]

/-- The loop stops at the first network above the address and finds the address itself. -/
theorem inCnCidr6_eq_scan (entries : List Cidr6) (a : Ip6) :
    inCnCidr6 (entries.map Cidr6.row) a.numbers =
      scan (fun c => decide (a.val < c.network.val)) (fun c => decide (c.network = a)) entries := by
  induction entries with
  | nil => rfl
  | cons c rest ih =>
      have hd := firstDifference_groups (a.property.trans c.network.property.symm)
      rw [List.map_cons, Cidr6.row, inCnCidr6, ih, scan]
      cases hf : firstDifference a.numbers c.network.numbers with
      | none =>
          rw [show firstDifference (a.val.map fun g => Number.finite g.toNat)
            (c.network.val.map fun g => Number.finite g.toNat) = none from hf] at hd
          have heq : c.network = a := Subtype.ext hd.symm
          simp only [heq, samePrefix6_refl, if_true, decide_true,
            decide_eq_false (List.lt_irrefl a.val), Bool.false_eq_true, if_false]
      | some p =>
          rw [show firstDifference (a.val.map fun g => Number.finite g.toNat)
            (c.network.val.map fun g => Number.finite g.toNat) = some p from hf] at hd
          obtain ⟨hne, hlt⟩ := hd
          have hne' : ¬ c.network = a := fun h => hne (congrArg Subtype.val h.symm)
          simp only [decide_eq_false hne', Bool.false_eq_true, if_false, decide_eq_true_eq, hlt]

/-- The scan finds exactly the bases of the listed networks. -/
theorem inCnCidr6_iff (t : Table6) (a : Ip6) :
    inCnCidr6 t.rows a.numbers = true ↔ ∃ c ∈ t.entries, c.network = a := by
  have hsorted : t.entries.Pairwise fun c d =>
      decide (a.val < c.network.val) = true → decide (d.network = a) = false := by
    refine t.sorted.imp fun {c d} hp hlt => decide_eq_false fun hd => ?_
    have hlt : a.val < c.network.val := of_decide_eq_true hlt
    subst hd
    rcases hp with h | ⟨h, -⟩
    · exact List.lt_irrefl _ (List.lt_trans hlt h)
    · rw [h] at hlt
      exact List.lt_irrefl _ hlt
  have hhit : ∀ c ∈ t.entries, decide (c.network = a) = true →
      decide (a.val < c.network.val) = false := by
    intro c _ hc
    rw [of_decide_eq_true hc]
    exact decide_eq_false (List.lt_irrefl _)
  rw [Table6.rows, inCnCidr6_eq_scan, scan_iff hhit hsorted]
  simp only [decide_eq_true_eq]

/-- The lookup decides membership of an address exactly when it is the base of a listed
network or lies in none. -/
theorem inCnCidr6_decides_iff (t : Table6) (a : Ip6) :
    (inCnCidr6 t.rows a.numbers = true ↔ ∃ c ∈ t.entries, c.Contains a) ↔
      (∃ c ∈ t.entries, c.network = a) ∨ ∀ c ∈ t.entries, ¬ c.Contains a := by
  rw [inCnCidr6_iff]
  constructor
  · intro h
    by_cases hc : ∃ c ∈ t.entries, c.Contains a
    · exact Or.inl (h.mpr hc)
    · exact Or.inr fun c hm hin => hc ⟨c, hm, hin⟩
  · rintro (⟨c, hm, rfl⟩ | h)
    · exact iff_of_true ⟨c, hm, rfl⟩ ⟨c, hm, SamePrefix.refl _ _⟩
    · refine iff_of_false ?_ fun ⟨c, hm, hin⟩ => h c hm hin
      rintro ⟨c, hm, rfl⟩
      exact h c hm (SamePrefix.refl _ _)

/-- 240e::/20 -/
def carrier : Cidr6 where
  network := ⟨[0x240e, 0, 0, 0, 0, 0, 0, 0], rfl⟩
  bits := 20
  bits_le := by decide
  host_zero := by decide +kernel

theorem carrier_misses_host :
    ¬ ∀ (t : Table6) (a : Ip6),
      inCnCidr6 t.rows a.numbers = true ↔ ∃ c ∈ t.entries, c.Contains a := by
  intro h
  have hin := (h ⟨[carrier], List.pairwise_singleton _ _⟩ ⟨[0x240e, 0, 0, 0, 0, 0, 0, 1], rfl⟩).mpr
    ⟨carrier, List.mem_singleton_self _, by decide +kernel⟩
  exact absurd hin (by decide +kernel)

/-! ## IPv4 -/

/-- For a prefix of a network the mask keeps the leading bits. -/
theorem getLsbD_mask4 {n : Nat} (hn : n ≤ 32) {j : Nat} (hj : j < 32) :
    (mask4 n).getLsbD j = decide (32 - n ≤ j) := by
  rw [mask4]
  by_cases h0 : n = 0
  · subst h0
    have : ¬ 32 ≤ j := by omega
    simp [this]
  · rw [if_neg (by exact_mod_cast h0)]
    have hshift : ((32 - (n : Int)) % 32).toNat = 32 - n := by omega
    rw [hshift, BitVec.getLsbD_shiftLeft, BitVec.getLsbD_allOnes]
    have : j - (32 - n) < 32 := by omega
    simp only [decide_eq_true hj, decide_eq_true this, Bool.true_and, Bool.and_true]
    by_cases h : 32 - n ≤ j
    · simp [h, not_lt.mpr h]
    · simp [h, not_le.mp h]

/-- Masking compares the leading bits. -/
theorem sameNetwork4_iff {n ip base : Nat} (hn : n ≤ 32) :
    sameNetwork4 (mask4 n) ip base = true ↔ SamePrefix n (bit 32 ip) (bit 32 base) := by
  have hbit : ∀ a j, j < 32 →
      (BitVec.ofNat 32 a &&& mask4 n).getLsbD j = (a.testBit j && decide (32 - n ≤ j)) := by
    intro a j hj
    rw [BitVec.getLsbD_and, BitVec.getLsbD_ofNat, getLsbD_mask4 hn hj, decide_eq_true hj,
      Bool.true_and]
  rw [sameNetwork4, decide_eq_true_eq]
  constructor
  · intro h i hi
    have hj := congrArg (BitVec.getLsbD · (31 - i)) h
    simp only [hbit _ (31 - i) (by omega),
      decide_eq_true (show 32 - n ≤ 31 - i by omega), Bool.and_true] at hj
    exact hj
  · intro h
    refine BitVec.eq_of_getLsbD_eq fun j hj => ?_
    rw [hbit _ j hj, hbit _ j hj]
    by_cases hle : 32 - n ≤ j
    · have hi := h (31 - j) (by omega)
      rw [bit, bit, show 32 - 1 - (31 - j) = j by omega] at hi
      rw [hi]
    · rw [decide_eq_false hle, Bool.and_false, Bool.and_false]

theorem toInt?_natCast (n : Nat) : (Number.finite (n : ℚ)).toInt? = some (n : Int) := by
  simp [Number.toInt?]

theorem value_octets (a b c d : UInt8) :
    value [a, b, c, d] =
      ((a.toNat * 256 + b.toNat) * 256 + c.toNat) * 256 + d.toNat := by simp [value]

/-- The parts of an IPv4 literal are read as its octets. -/
theorem map_toInt?_octets {octets : Bytes} {parts : List Text}
    (h : List.Forall₂ SpellsOctet octets parts) :
    (parts.map fun part => ((Number.ofText part).toInt?.getD 0).toNat) =
      octets.map UInt8.toNat := by
  induction h with
  | nil => rfl
  | cons ho _ ih =>
      rw [List.map_cons, List.map_cons, ih, ofText_octet ho, toInt?_natCast]
      rfl

theorem octet_spelled {b : UInt8} {s : Text} (h : SpellsOctet b s) : octet s = some b.toNat := by
  have hb : (0 : Int) ≤ b.toNat ∧ (b.toNat : Int) ≤ 255 := by
    have := b.toNat_lt
    omega
  rw [octet, ofText_octet h, toInt?_natCast, Option.bind_some, if_pos hb]
  rfl

theorem mapM_eq_some_iff {α β : Type} {f : α → Option β} {xs : List α} {ys : List β} :
    xs.mapM f = some ys ↔ List.Forall₂ (fun x y => f x = some y) xs ys := by
  induction xs generalizing ys with
  | nil =>
      rw [List.mapM_nil, List.forall₂_nil_left_iff]
      exact Option.some_inj.trans eq_comm
  | cons x xs ih =>
      rw [List.mapM_cons, List.forall₂_cons_left_iff, Option.bind_eq_bind,
        Option.bind_eq_some_iff]
      constructor
      · intro h
        obtain ⟨y, hy, h⟩ := h
        obtain ⟨ys', hys, h⟩ := Option.bind_eq_some_iff.mp h
        exact ⟨y, ys', hy, ih.mp hys, (Option.some.inj h).symm⟩
      · intro h
        obtain ⟨y, ys', hy, hys, rfl⟩ := h
        exact ⟨y, hy, Option.bind_eq_some_iff.mpr ⟨ys', ih.mpr hys, rfl⟩⟩

/-- The rules read an IPv4 literal as its number. -/
theorem ipv4ToInt_spelled {octets : Bytes} {ip : Text} (h : SpellsIp4 octets ip) :
    ipv4ToInt ip = some (value octets) := by
  have hparts : (ip.splitOn '.').mapM octet = some (octets.map UInt8.toNat) :=
    mapM_eq_some_iff.mpr (List.forall₂_map_right_iff.mpr
      ((splitOn_ip4 h).flip.imp fun _ _ => octet_spelled))
  obtain ⟨o₁, o₂, o₃, o₄, rfl⟩ := List.length_eq_four.mp h.1
  rw [ipv4ToInt, hparts, value_octets]
  rfl

theorem toInt?_spellsNat {n : Nat} {s : Text} (h : SpellsNat n s) (hn : n < 2 ^ 53) :
    (Number.ofText s).toInt? = some (n : Int) := by
  obtain ⟨hne, hd, rfl⟩ := h
  rw [Number.ofText_digits hne (List.all_eq_true.mp hd), Number.round_natCast hn, toInt?_natCast]

theorem slashless_ip4 {octets : Bytes} {s : Text} (h : SpellsIp4 octets s) : '/' ∉ s := by
  obtain ⟨_, parts, hp, rfl⟩ := h
  intro hm
  rcases mem_intercalate hm with hc | ⟨p, hp', hc⟩
  · simp at hc
  · obtain ⟨-, -, hd, -⟩ := forall_right (P := fun s => ∃ b, SpellsOctet b s) hp
      (fun b _ h => ⟨b, h⟩) p hp' |>.choose_spec
    exact absurd (List.all_eq_true.mp hd _ hc) (by decide)

/-- The row of a line that lists a network is the network. -/
theorem packLine_spelled {c : Cidr4} {line : Text} (h : c.Spelled (trim line)) :
    packLine line = some (c.base, (c.bits : Int)) := by
  obtain ⟨octets, ip, bits, hip, hv, hb, ht⟩ := h
  have hslash := slashless_ip4 hip
  have hbits : c.bits < 2 ^ 53 := c.bits_le.trans_lt (by decide)
  have hne : (ip ++ '/' :: bits).isEmpty = false := by simp
  obtain ⟨o₁, o₂, o₃, o₄, rfl⟩ := List.length_eq_four.mp hip.1
  have hparts := map_toInt?_octets (splitOn_ip4 hip)
  simp only [packLine, ht, hne, Bool.false_eq_true, if_false, indexOf_append hslash,
    Option.bind_some, List.take_left, isIp4_of_spells hip, Bool.not_true, hparts,
    List.map_cons, List.map_nil]
  rw [List.drop_append, List.drop_of_length_le (Nat.le_succ _), Nat.add_sub_cancel_left]
  simp only [List.drop_succ_cons, List.drop_zero, List.nil_append, toInt?_spellsNat hb hbits,
    Option.bind_some, ← hv, value_octets]

theorem packLine_slashless {line : Text} (h : '/' ∉ line) : packLine line = none := by
  have hi : indexOf (trim line) '/' = none :=
    List.idxOf?_eq_none_iff.mpr fun hc => h (mem_of_mem_trim hc)
  rw [packLine, hi]
  simp

/-- The rows of a canonical list are its networks. -/
theorem mem_packCidrs {text : Text} (hc : Canonical text) {row : Nat × Int} :
    row ∈ packCidrs text ↔ ∃ c : Cidr4, c.Listed text ∧ row = (c.base, (c.bits : Int)) := by
  rw [packCidrs, List.mem_mergeSort, List.mem_filterMap]
  constructor
  · rintro ⟨line, hl, hp⟩
    by_cases hs : '/' ∈ line
    · obtain ⟨c, h⟩ := hc line hl hs
      rw [packLine_spelled h] at hp
      exact ⟨c, ⟨line, hl, h⟩, (Option.some.inj hp).symm⟩
    · rw [packLine_slashless hs] at hp
      cases hp
  · intro h
    obtain ⟨c, ⟨line, hl, h⟩, rfl⟩ := h
    exact ⟨line, hl, packLine_spelled h⟩

theorem packCidrs_sorted (text : Text) :
    (packCidrs text).Pairwise fun a b => a.1 ≤ b.1 := by
  have hle : ∀ a b : Nat × Int, rowLe a b = true ↔ a.1 < b.1 ∨ a.1 = b.1 ∧ a.2 ≤ b.2 := by
    intro a b
    simp [rowLe]
  have hsorted : (packCidrs text).Pairwise fun a b => rowLe a b = true := by
    refine List.pairwise_mergeSort ?_ ?_ _
    · intro a b c hab hbc
      rw [hle] at hab hbc ⊢
      omega
    · intro a b
      rw [Bool.or_eq_true, hle, hle]
      omega
  refine hsorted.imp fun {a b} h => ?_
  rw [hle] at h
  omega

theorem inCnCidr4_eq_scan (rows : List (Nat × Nat)) (ip : Nat) :
    inCnCidr4 rows ip =
      scan (fun r => decide (ip < r.1)) (fun r => sameNetwork4 (mask4 r.2) ip r.1) rows := by
  induction rows with
  | nil => rfl
  | cons r rest ih =>
      obtain ⟨base, bits⟩ := r
      simp only [inCnCidr4, scan, ih, decide_eq_true_eq]

/-- Packing and lookup agree: the scan finds the addresses of the listed networks. -/
theorem inCnCidr4_packCidrs (text : Text) (hc : Canonical text) (ip : UInt32) :
    inCnCidr4 (loaded (packCidrs text)) ip.toNat = true ↔
      ∃ c : Cidr4, c.Listed text ∧ c.Contains ip := by
  have hrow : ∀ r ∈ loaded (packCidrs text), ∃ c : Cidr4, c.Listed text ∧
      r = (c.base, c.bits) := by
    intro r hr
    obtain ⟨row, hrow, rfl⟩ := List.mem_map.mp hr
    obtain ⟨c, hl, rfl⟩ := (mem_packCidrs hc).mp hrow
    exact ⟨c, hl, rfl⟩
  have hle : ∀ r ∈ loaded (packCidrs text),
      sameNetwork4 (mask4 r.2) ip.toNat r.1 = true → r.1 ≤ ip.toNat := by
    intro r hr hs
    obtain ⟨c, -, rfl⟩ := hrow r hr
    exact base_le c.bits_le ip.toNat_lt c.base_lt c.host_zero
      ((sameNetwork4_iff c.bits_le).mp hs)
  have hsorted : (loaded (packCidrs text)).Pairwise fun r later =>
      decide (ip.toNat < r.1) = true → sameNetwork4 (mask4 later.2) ip.toNat later.1 = false := by
    have hpair : (loaded (packCidrs text)).Pairwise fun a b => a.1 ≤ b.1 :=
      List.pairwise_map.mpr (packCidrs_sorted text)
    refine hpair.imp_of_mem fun {r later} _ hl hrl hlt => ?_
    have hlt := of_decide_eq_true hlt
    rw [← Bool.not_eq_true]
    intro hs
    exact absurd (hrl.trans (hle later hl hs)) (not_le.mpr hlt)
  rw [inCnCidr4_eq_scan, scan_iff (fun r hr hs => decide_eq_false (not_lt.mpr (hle r hr hs)))
    hsorted]
  constructor
  · intro h
    obtain ⟨r, hr, hs⟩ := h
    obtain ⟨c, hl, rfl⟩ := hrow r hr
    exact ⟨c, hl, (sameNetwork4_iff c.bits_le).mp hs⟩
  · intro h
    obtain ⟨c, hl, hin⟩ := h
    refine ⟨(c.base, c.bits), ?_, (sameNetwork4_iff c.bits_le).mpr hin⟩
    exact List.mem_map.mpr ⟨_, (mem_packCidrs hc).mpr ⟨c, hl, rfl⟩, rfl⟩

/-- 10.0.0.0/8 -/
def privateNetwork : Cidr4 where
  base := 10 * 2 ^ 24
  bits := 8
  base_lt := by decide
  bits_le := by decide
  host_zero := by decide +kernel

theorem privateNetwork_spelled : privateNetwork.Spelled "10.0.0.0/8".toList := by
  have hparts : List.Forall₂ SpellsOctet [10, 0, 0, 0]
      ["10".toList, "0".toList, "0".toList, "0".toList] := by
    repeat' constructor
    all_goals decide
  exact ⟨[10, 0, 0, 0], "10.0.0.0".toList, "8".toList, ⟨rfl, _, hparts, rfl⟩, by decide,
    ⟨by decide, by decide, by decide⟩, rfl⟩

/-- A note, a blank line and the same network twice. -/
def privateList : Text := "private\n10.0.0.0/8\r\n\n10.0.0.0/8".toList

theorem privateList_canonical : Canonical privateList := by
  intro line hl hs
  have hlines : ∀ line ∈ privateList.splitOn '\n', '/' ∈ line →
      trim line = "10.0.0.0/8".toList := by decide +kernel
  rw [hlines line hl hs]
  exact ⟨privateNetwork, privateNetwork_spelled⟩

theorem privateList_covers :
    inCnCidr4 (loaded (packCidrs privateList)) (0x0a010203 : UInt32).toNat = true ↔
      ∃ c : Cidr4, c.Listed privateList ∧ c.Contains 0x0a010203 :=
  inCnCidr4_packCidrs privateList privateList_canonical 0x0a010203

end DshClashProxy.Core.CnCidrs
