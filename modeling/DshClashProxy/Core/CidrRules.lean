import DshClashProxy.Core.CnCidrs
import DshClashProxy.Core.Vless

/-!
# Custom CIDR rules

`compileRule` reads the address of an `IP-CIDR` or `IP-CIDR6` line with the lenient parsers
of the engine and the prefix with `Number`. A valid line matches exactly its network, unless
the address has a dotted tail. Of the other lines some compile: those whose address or prefix
the parsers accept all the same.
-/
namespace DshClashProxy.Core.CidrRules

open Js Js.Text Rules InboundHost EncodeAddr Vless CnCidrs Lib.Cidr

/-! ## The two types -/

inductive Family where
  | ip4
  | ip6
  deriving DecidableEq

/-- The type of a rule line. -/
def Family.type : Family → Text
  | ip4 => "IP-CIDR".toList
  | ip6 => "IP-CIDR6".toList

def Family.width : Family → Nat
  | ip4 => 32
  | ip6 => 128

abbrev Family.Address : Family → Type
  | ip4 => UInt32
  | ip6 => Ip6

/-- The bits of an address, the most significant first. -/
def Family.bits : (f : Family) → f.Address → Nat → Bool
  | ip4, a => bit 32 (UInt32.toNat a)
  | ip6, a => Ip6.bit a

/-- The text is a textual form of the address. -/
def Family.Spelled : (f : Family) → f.Address → Text → Prop
  | ip4, a, s => ∃ octets, SpellsIp4 octets s ∧ value octets = UInt32.toNat a
  | ip6, a, s => SpellsAddress (Ip6.groups a) s

/-- The parser of the engine accepts the text. -/
def Family.parses : Family → Text → Bool
  | ip4, s => (ipv4ToInt s).isSome
  | ip6, s => (ipv6ToGroups s).isSome

/-- The rule of an address text and a prefix, which is none where it is no integer. -/
def Family.rule (f : Family) (address : Text) (bits : Option Int) (action : Action) :
    Option Rule :=
  match f with
  | ip4 => (ipv4ToInt address).bind fun base => bits.map fun bits => .ip ⟨base, bits, action⟩
  | ip6 => (ipv6ToGroups address).bind fun groups =>
      bits.map fun bits => .ip6 ⟨groups, bits, action⟩

/-- The rule matches an address of the family. -/
def Family.hits : (f : Family) → Rule → f.Address → Bool
  | ip4, .ip r, a => r.hits (UInt32.toNat a)
  | ip6, .ip6 r, a => r.hits (Ip6.numbers a)
  | _, _, _ => false

/-! ## Lines -/

/-- The type a line names. -/
def lineType (cases : CaseMap) (line : Text) : Text :=
  cases.toUpper ((lineParts line).dropLast.head?.getD [])

/-- The parts between type and target. -/
def lineParam (line : Text) : Text := [','].intercalate (lineParts line).dropLast.tail

/-- What stands in front of the first slash. -/
def addressText (line : Text) : Text := sliceTo (lineParam line) (indexOf (lineParam line) '/')

/-- What stands behind the first slash. -/
def prefixText (line : Text) : Text := sliceAfter (lineParam line) (indexOf (lineParam line) '/')

/-- A line of this type that is no comment. -/
structure OfType (cases : CaseMap) (f : Family) (line : Text) : Prop where
  ne_nil : trim line ≠ []
  not_comment : ¬ "#".toList <+: trim line ∧ ¬ "//".toList <+: trim line
  type_eq : lineType cases line = f.type

/-- The line is `TYPE,a/n,T` with a valid address, a decimal prefix in range and a valid
target. -/
structure Names (cases : CaseMap) (f : Family) (line : Text) (a : f.Address) (n : Nat)
    (action : Action) : Prop where
  param_eq : ∃ address bits, lineParam line = address ++ '/' :: bits ∧ f.Spelled a address ∧
    SpellsNat n bits
  le_width : n ≤ f.width
  target : targetAction (lineTarget cases line) = some action

/-- A valid line compiles to a rule that matches exactly its network, and any other to none. -/
structure MatchesExactly (cases : CaseMap) (f : Family) (line : Text) : Prop where
  named : ∀ a n action, Names cases f line a n action →
    ∃ rule, compileRule cases line = some rule ∧ rule.action = action ∧
      ∀ ip, f.hits rule ip = true ↔ SamePrefix n (f.bits ip) (f.bits a)
  other : (∀ a n action, ¬ Names cases f line a n action) → compileRule cases line = none

/-- A dotted tail stands behind a double colon, and the prefix covers none but zero bits
behind that. -/
def Family.Undotted : (f : Family) → f.Address → Nat → Text → Prop
  | ip4, _, _, _ => True
  | ip6, a, n, address => '.' ∈ address →
      "::".toList <:+: address ∧ HostZero n (16 * leading address) (Ip6.bit a)

/-- Where the parsers accept a line it is valid, and they read its address as it is. -/
structure Strict (cases : CaseMap) (f : Family) (line : Text) : Prop where
  valid : (targetAction (lineTarget cases line)).isSome = true →
    f.parses (addressText line) = true →
    (Number.ofText (prefixText line)).toInt?.isSome = true →
    ∃ a n action, Names cases f line a n action
  undotted : ∀ a n action, Names cases f line a n action → f.Undotted a n (addressText line)

/-! ## Compilation -/

theorem compileRule_of_type {cases : CaseMap} {f : Family} {line : Text}
    (h : OfType cases f line) :
    compileRule cases line = (targetAction (lineTarget cases line)).bind fun action =>
      f.rule (addressText line) (Number.ofText (prefixText line)).toInt? action := by
  have hempty : (trim line).isEmpty = false := by simpa using h.ne_nil
  have hhash : startsWith (trim line) "#".toList = false := by
    rw [← Bool.not_eq_true, startsWith, List.isPrefixOf_iff_prefix]
    exact h.not_comment.1
  have hslashes : startsWith (trim line) "//".toList = false := by
    rw [← Bool.not_eq_true, startsWith, List.isPrefixOf_iff_prefix]
    exact h.not_comment.2
  have htype : cases.toUpper ((lineParts line).dropLast.head?.getD []) = f.type := h.type_eq
  simp only [compileRule, hempty, hhash, hslashes, Bool.or_self, Bool.false_eq_true, if_false,
    htype]
  cases f <;> rfl

/-- A line compiles when the parsers accept all of its parts. -/
theorem compileRule_isSome_iff {cases : CaseMap} {f : Family} {line : Text}
    (h : OfType cases f line) :
    (compileRule cases line).isSome = true ↔
      (targetAction (lineTarget cases line)).isSome = true ∧ f.parses (addressText line) = true ∧
        (Number.ofText (prefixText line)).toInt?.isSome = true := by
  rw [compileRule_of_type h]
  cases targetAction (lineTarget cases line) with
  | none => simp
  | some action =>
      cases f with
      | ip4 =>
          simp only [Option.bind_some, Family.rule, Family.parses]
          cases ipv4ToInt (addressText line) <;> simp
      | ip6 =>
          simp only [Option.bind_some, Family.rule, Family.parses]
          cases ipv6ToGroups (addressText line) <;> simp

/-! ## Bits of groups -/

/-- The bits of eight groups, the most significant first. -/
def groupBits (ns : List Nat) (i : Nat) : Bool := (ns[i / 16]?.getD 0).testBit (15 - i % 16)

theorem bit_eq_groupBits (a : Ip6) : a.bit = groupBits a.groups := by
  funext i
  rw [Ip6.bit, groupBits, Ip6.groups, List.getElem?_map]
  cases a.val[i / 16]? with
  | none => simp
  | some g => rfl

theorem groupBit_natCast (ns : List Nat) (i : Nat) :
    groupBit (ns.map fun n : Nat => Number.finite n) i = groupBits ns i := by
  rw [groupBit, groupBits, List.getElem?_map]
  cases ns[i / 16]? with
  | none => simp
  | some n =>
      have hlt : 15 - i % 16 < 32 := by omega
      simp only [Option.map_some, toInt32_natCast, BitVec.getLsbD_ofNat, decide_eq_true hlt,
        Bool.true_and, Option.getD_some]

theorem numbers_eq (a : Ip6) : a.numbers = a.groups.map fun n : Nat => Number.finite n := by
  rw [Ip6.numbers, Ip6.groups, List.map_map]
  rfl

/-- The loop of the rule compares prefixes. -/
theorem samePrefix6_iff (n : Nat) (a : Ip6) (ns : List Nat) :
    samePrefix6 n a.numbers (ns.map fun n : Nat => Number.finite n) = true ↔
      SamePrefix n a.bit (groupBits ns) := by
  rw [samePrefix6, List.all_eq_true, numbers_eq, bit_eq_groupBits]
  simp only [List.mem_range, groupBit_natCast, beq_iff_eq]
  rfl

/-! ## A dotted tail -/

section
variable {left mid : List Nat} {q r x : Nat}

/-- The groups of an address with a dotted tail. -/
def tailed (left mid : List Nat) (q r : Nat) : List Nat := left ++ (mid ++ [q, r])

/-- The groups it is read as: the tail is one group, so those before it move up. -/
def shifted (left mid : List Nat) (x : Nat) : List Nat := left ++ 0 :: (mid ++ [x])

theorem shifted_left {i : Nat} (h : i < 16 * left.length) :
    groupBits (shifted left mid x) i = groupBits (tailed left mid q r) i := by
  have hi : i / 16 < left.length := by omega
  rw [groupBits, groupBits, shifted, tailed, List.getElem?_append_left hi,
    List.getElem?_append_left hi]

theorem shifted_gap {i : Nat} (hl : 16 * left.length ≤ i) (hu : i < 16 * (left.length + 1)) :
    groupBits (shifted left mid x) i = false := by
  have hi : i / 16 = left.length := by omega
  rw [groupBits, shifted, hi, List.getElem?_append_right (Nat.le_refl _), Nat.sub_self]
  exact Nat.zero_testBit _

/-- Behind the gap the groups stand one place too late. -/
theorem shifted_mid (hlen : left.length + mid.length = 6) {i : Nat}
    (hl : 16 * (left.length + 1) ≤ i) (hu : i < 112) :
    groupBits (shifted left mid x) i = groupBits (tailed left mid q r) (i - 16) := by
  have hi : i / 16 - left.length = (i - 16) / 16 - left.length + 1 := by omega
  have hmid : (i - 16) / 16 - left.length < mid.length := by omega
  have hmod : (i - 16) % 16 = i % 16 := by omega
  rw [groupBits, groupBits, shifted, tailed, List.getElem?_append_right (by omega),
    List.getElem?_append_right (by omega), hi, List.getElem?_cons_succ,
    List.getElem?_append_left hmid, List.getElem?_append_left hmid, hmod]

theorem shifted_last (hlen : left.length + mid.length = 6) {i : Nat} (hl : 112 ≤ i)
    (hu : i < 128) : groupBits (shifted left mid x) i = x.testBit (15 - i % 16) := by
  have hi : i / 16 - left.length = mid.length + 1 := by omega
  rw [groupBits, shifted, List.getElem?_append_right (by omega), hi, List.getElem?_cons_succ,
    List.getElem?_append_right (Nat.le_refl _), Nat.sub_self]
  rfl

theorem tailed_tail (hlen : left.length + mid.length = 6) {i : Nat} (hl : 96 ≤ i)
    (hu : i < 112) : groupBits (tailed left mid q r) i = q.testBit (15 - i % 16) := by
  have hi : i / 16 - left.length = mid.length := by omega
  rw [groupBits, tailed, List.getElem?_append_right (by omega), hi,
    List.getElem?_append_right (Nat.le_refl _), Nat.sub_self]
  rfl

/-- The first half of the tail is zero when its bits are. -/
theorem tail_eq_zero (hlen : left.length + mid.length = 6) (hq : q < 65536)
    (h : ∀ i, 96 ≤ i → i < 112 → groupBits (tailed left mid q r) i = false) : q = 0 := by
  refine Nat.eq_of_testBit_eq fun j => ?_
  rw [Nat.zero_testBit]
  by_cases hj : j < 16
  · have hi := h (111 - j) (by omega) (by omega)
    rw [tailed_tail hlen (by omega) (by omega), show 15 - (111 - j) % 16 = j by omega] at hi
    exact hi
  · exact Nat.testBit_lt_two_pow
      (Nat.lt_of_lt_of_le hq (Nat.pow_le_pow_right two_pos (not_lt.mp hj)))

/-- The address keeps a prefix exactly when that covers none but zero bits behind the gap. -/
theorem samePrefix_shifted (hlen : left.length + mid.length = 6) (hq : q < 65536)
    (hx : x = q ↔ q = 0) {n : Nat} (hn : n ≤ 128) :
    SamePrefix n (groupBits (tailed left mid q r)) (groupBits (shifted left mid x)) ↔
      HostZero n (16 * left.length) (groupBits (tailed left mid q r)) := by
  have hlast : (∀ i, 96 ≤ i → i < 112 → groupBits (tailed left mid q r) i = false) →
      ∀ i, 112 ≤ i → i < 128 → groupBits (shifted left mid x) i = false := by
    intro h i hl hu
    have hq0 := tail_eq_zero hlen hq h
    rw [shifted_last hlen hl hu, hx.mpr hq0, hq0, Nat.zero_testBit]
  constructor
  · intro h i
    induction i using Nat.strongRecOn with
    | _ i ih =>
        intro hi hl
        rw [h i hi]
        by_cases hgap : i < 16 * (left.length + 1)
        · exact shifted_gap hl hgap
        · by_cases hmid : i < 112
          · rw [@shifted_mid left mid q r x hlen i (by omega) hmid]
            exact ih (i - 16) (by omega) (by omega) (by omega)
          · exact hlast (fun j hj hu => ih j (by omega) (by omega) (by omega)) i (by omega)
              (by omega)
  · intro h i hi
    by_cases hleft : i < 16 * left.length
    · exact (shifted_left hleft).symm
    · rw [h i hi (by omega)]
      by_cases hgap : i < 16 * (left.length + 1)
      · exact (shifted_gap (by omega) hgap).symm
      · by_cases hmid : i < 112
        · rw [@shifted_mid left mid q r x hlen i (by omega) hmid]
          exact (h (i - 16) (by omega) (by omega)).symm
        · exact (hlast (fun j hj hu => h j (by omega) (by omega)) i (by omega) (by omega)).symm

end

/-! ## What the parser makes of an IPv6 literal -/

/-- The piece is read as this group. -/
def ReadAs (n : Nat) (s : Text) : Prop := Number.parseHex s = .finite n ∧ s ≠ [] ∧ ':' ∉ s

def fins (ns : List Nat) : List Number := ns.map fun n : Nat => Number.finite n

theorem readAs_of_group {n : Nat} {s : Text} (h : SpellsGroup n s) : ReadAs n s := by
  have hlt := spellsGroup_lt h
  obtain ⟨hne, -, hd, rfl⟩ := h
  refine ⟨?_, hne, colonless_of_digits le_rfl (List.all_eq_true.mp hd)⟩
  rw [Number.parseHex_of_digits hne (List.all_eq_true.mp hd),
    Number.round_natCast (hlt.trans (by decide))]

theorem readAs_of_groups {ns : List Nat} {ss : List Text} (h : List.Forall₂ SpellsGroup ns ss) :
    List.Forall₂ ReadAs ns ss := h.imp fun _ _ => readAs_of_group

theorem readAs_dotted (a b c d : UInt8) : ∃ x, ReadAs x (dotted [a, b, c, d]) ∧
    (x = a.toNat * 256 + b.toNat ↔ a.toNat * 256 + b.toNat = 0) := by
  obtain ⟨x, -, hx, h0⟩ := parseHex_dotted a b c d
  have hne : dotted [a, b, c, d] ≠ [] := by
    rw [dotted, List.map_cons, List.map_cons, List.intercalate_cons_cons]
    simp
  exact ⟨x, ⟨hx, hne, colonless_dotted _⟩, h0⟩

theorem map_parseHex {ns : List Nat} {ss : List Text} (h : List.Forall₂ ReadAs ns ss) :
    ss.map Number.parseHex = fins ns := by
  induction h with
  | nil => rfl
  | cons hp _ ih => rw [List.map_cons, ih, hp.1, fins, fins, List.map_cons]

theorem any_isNaN_fins (ns : List Nat) : (fins ns).any Number.isNaN = false := by
  simp [fins, Number.isNaN]

theorem length_fins (ns : List Nat) : (fins ns).length = ns.length := List.length_map _

theorem readAs_pieces {ns : List Nat} {ss : List Text} (h : List.Forall₂ ReadAs ns ss) :
    ∀ p ∈ ss, p ≠ [] ∧ ':' ∉ p := forall_right h fun _ _ hp => hp.2

theorem hexGroups_pieces {ns : List Nat} {ss : List Text} (h : List.Forall₂ ReadAs ns ss) :
    hexGroups ([':'].intercalate ss) = fins ns := by
  cases h with
  | nil => rfl
  | @cons n s ns ss hp ht =>
      have hne : ([':'].intercalate (s :: ss)).isEmpty = false := by
        cases ss with
        | nil => simpa using hp.2.1
        | cons t ss => simp [List.intercalate_cons_cons]
      have hsplit := List.splitOn_intercalate ':'
        (fun p hm => (readAs_pieces (.cons hp ht) p hm).2) (List.cons_ne_nil s ss)
      rw [hexGroups, hne, if_neg Bool.false_ne_true, hsplit, map_parseHex (.cons hp ht)]

theorem ipv6ToGroups_pieces {ns : List Nat} {ss : List Text} (h : List.Forall₂ ReadAs ns ss)
    (hne : ss ≠ []) :
    ipv6ToGroups ([':'].intercalate ss) = if ns.length = 8 then some (fins ns) else none := by
  have hsplit := List.splitOn_intercalate ':' (fun p hp => (readAs_pieces h p hp).2) hne
  rw [ipv6ToGroups, split_of_not_infix (not_infix_colons (readAs_pieces h))]
  simp only [hsplit, map_parseHex h, any_isNaN_fins, length_fins]
  by_cases h8 : ns.length = 8 <;> simp [h8]

theorem not_endsWith_colon {pieces : List Text} (h : ∀ p ∈ pieces, p ≠ [] ∧ ':' ∉ p) :
    ¬ [':'] <:+ [':'].intercalate pieces := by
  rcases List.eq_nil_or_concat pieces with rfl | ⟨init, q, rfl⟩
  · simp
  · obtain ⟨hne, hcolon⟩ := h q (by simp)
    intro hs
    have hq : [':'] <:+ q := by
      refine List.suffix_of_suffix_length_le hs ?_ (List.length_pos_iff.mpr hne)
      by_cases hi : init = []
      · rw [hi, List.concat_eq_append, List.nil_append, List.intercalate_singleton]
      · rw [List.concat_eq_append, intercalate_append hi (List.cons_ne_nil q []),
          List.intercalate_singleton]
        exact (List.suffix_cons ':' q).trans (List.suffix_append _ _)
    exact hcolon (hq.mem (List.mem_singleton_self _))

/-- The pieces in front of a double colon hold none. -/
theorem first_colons {pieces : List Text} (h : ∀ p ∈ pieces, p ≠ [] ∧ ':' ∉ p) :
    ¬ "::".toList <:+: ([':'].intercalate pieces ++ "::".toList).dropLast := by
  have hdrop : ([':'].intercalate pieces ++ "::".toList).dropLast =
      [':'].intercalate pieces ++ [':'] := by
    rw [List.dropLast_append_of_ne_nil (by decide)]
    rfl
  rw [hdrop]
  intro hi
  rcases List.infix_concat_iff.mp hi with hs | hi
  · have hlast : [':'] ++ [':'] <:+ [':'].intercalate pieces ++ [':'] := hs
    exact not_endsWith_colon h ((List.suffix_append_inj_of_length_eq rfl).mp hlast).1
  · exact not_infix_colons h hi

theorem ipv6ToGroups_sides {left right : List Nat} {ls rs : List Text}
    (hl : List.Forall₂ ReadAs left ls) (hr : List.Forall₂ ReadAs right rs)
    (h7 : left.length + right.length ≤ 7) :
    ipv6ToGroups ([':'].intercalate ls ++ "::".toList ++ [':'].intercalate rs) =
      some (fins (left ++ List.replicate (8 - left.length - right.length) 0 ++ right)) := by
  rw [ipv6ToGroups, split_append (by decide) (first_colons (readAs_pieces hl)),
    split_of_not_infix (not_infix_colons (readAs_pieces hr))]
  simp only [hexGroups_pieces hl, hexGroups_pieces hr, any_isNaN_fins, length_fins,
    decide_eq_false (not_lt.mpr h7), Bool.or_self, Bool.false_eq_true, if_false]
  simp only [fins, List.map_append, List.map_replicate]
  rfl

/-- Without a double colon a dotted tail leaves seven groups. -/
theorem ipv6ToGroups_fullDotted {ms : List Nat} {ts : List Text} {a b c d : UInt8}
    (hf : List.Forall₂ SpellsGroup ms ts) (h6 : ms.length = 6) :
    ipv6ToGroups ([':'].intercalate (ts ++ [dotted [a, b, c, d]])) = none ∧
      ¬ "::".toList <:+: [':'].intercalate (ts ++ [dotted [a, b, c, d]]) := by
  obtain ⟨x, hx, -⟩ := readAs_dotted a b c d
  have hread : List.Forall₂ ReadAs (ms ++ [x]) (ts ++ [dotted [a, b, c, d]]) :=
    List.rel_append (readAs_of_groups hf) (.cons hx .nil)
  have h7 : (ms ++ [x]).length ≠ 8 := by
    rw [List.length_append, List.length_singleton]
    omega
  have hparse := ipv6ToGroups_pieces hread (by simp)
  rw [if_neg h7] at hparse
  exact ⟨hparse, not_infix_colons (readAs_pieces hread)⟩

/-- With a double colon a dotted tail moves the groups behind the double colon up by one. -/
theorem ipv6ToGroups_compressedDotted {left ms : List Nat} {ls ts : List Text} {k : Nat}
    {a b c d : UInt8} (hleft : List.Forall₂ SpellsGroup left ls)
    (hf : List.Forall₂ SpellsGroup ms ts) (h6 : left.length + k + ms.length = 6) :
    ∃ vs, ipv6ToGroups ([':'].intercalate ls ++ "::".toList ++
        [':'].intercalate (ts ++ [dotted [a, b, c, d]])) = some (fins vs) ∧ ∀ n ≤ 128,
      (SamePrefix n (groupBits (left ++ List.replicate k 0 ++
          (ms ++ [a.toNat * 256 + b.toNat, c.toNat * 256 + d.toNat]))) (groupBits vs) ↔
        HostZero n (16 * left.length) (groupBits (left ++ List.replicate k 0 ++
          (ms ++ [a.toNat * 256 + b.toNat, c.toNat * 256 + d.toNat])))) := by
  obtain ⟨x, hx, hx0⟩ := readAs_dotted a b c d
  have hread : List.Forall₂ ReadAs (ms ++ [x]) (ts ++ [dotted [a, b, c, d]]) :=
    List.rel_append (readAs_of_groups hf) (.cons hx .nil)
  have hk8 : 8 - left.length - (ms ++ [x]).length = k + 1 := by
    rw [List.length_append, List.length_singleton]
    omega
  have hparse := ipv6ToGroups_sides (readAs_of_groups hleft) hread
    (by rw [List.length_append, List.length_singleton]; omega)
  rw [hk8] at hparse
  have htailed : left ++ List.replicate k 0 ++
      (ms ++ [a.toNat * 256 + b.toNat, c.toNat * 256 + d.toNat]) =
      tailed left (List.replicate k 0 ++ ms) (a.toNat * 256 + b.toNat)
        (c.toNat * 256 + d.toNat) := by simp [tailed]
  have hshifted : left ++ List.replicate (k + 1) 0 ++ (ms ++ [x]) =
      shifted left (List.replicate k 0 ++ ms) x := by
    simp [shifted, List.replicate_succ]
  have hlen : left.length + (List.replicate k 0 ++ ms).length = 6 := by
    rw [List.length_append, List.length_replicate]
    omega
  have hq : a.toNat * 256 + b.toNat < 65536 := by
    have := a.toNat_lt
    have := b.toNat_lt
    omega
  refine ⟨_, hparse, fun n hn => ?_⟩
  rw [htailed, hshifted]
  exact samePrefix_shifted hlen hq hx0 hn

/-- The parser reads an IPv6 literal as it is, up to a dotted tail. -/
theorem ipv6ToGroups_spelled {ns : List Nat} {text : Text} (h : SpellsAddress ns text)
    (h8 : ns.length = 8) :
    (ipv6ToGroups text = none ∧ '.' ∈ text ∧ ¬ "::".toList <:+: text) ∨
      ∃ vs, ipv6ToGroups text = some (fins vs) ∧ ∀ n ≤ 128,
        (SamePrefix n (groupBits ns) (groupBits vs) ↔ ('.' ∈ text →
          "::".toList <:+: text ∧ HostZero n (16 * leading text) (groupBits ns))) := by
  cases h with
  | @full _ ss hs =>
      have hne : ss ≠ [] := by
        rintro rfl
        cases hs
        cases h8
      have hsplit := List.splitOn_intercalate ':' (colonless_spells hs) hne
      rcases spells_cases hs with hf | ⟨ms, ts, a, b, c, d, hf, rfl, rfl⟩
      · have hdot : '.' ∉ [':'].intercalate ss :=
          dotless_of_groups (hsplit ▸ pieces_of_groups hf)
        have hparse := ipv6ToGroups_pieces (readAs_of_groups hf) hne
        rw [if_pos h8] at hparse
        exact Or.inr ⟨ns, hparse, fun n _ =>
          iff_of_true (SamePrefix.refl n _) fun hd => absurd hd hdot⟩
      · have h6 : ms.length = 6 := by
          simp only [List.length_append, List.length_cons, List.length_nil] at h8
          omega
        obtain ⟨hparse, hcolons⟩ := ipv6ToGroups_fullDotted hf h6
        exact Or.inl ⟨hparse, dot_mem_of_dotted (by simp) hsplit, hcolons⟩
  | @compressed left right ls rs k hk hleft hright =>
      have hcolons : "::".toList <:+:
          [':'].intercalate ls ++ "::".toList ++ [':'].intercalate rs := ⟨_, _, rfl⟩
      have hsplit := splitOn_compressed (colonless_groups hleft) (colonless_spells hright)
      simp only [List.length_append, List.length_replicate] at h8
      rcases spells_cases hright with hf | ⟨ms, ts, a, b, c, d, hf, rfl, rfl⟩
      · have hp : List.Forall₂ Piece (sideGroups left ++ 0 :: sideGroups right)
            (side ls ++ [] :: side rs) :=
          List.rel_append (pieces_of_side hleft) (.cons (Or.inr ⟨rfl, rfl⟩) (pieces_of_side hf))
        have hdot := dotless_of_groups (hsplit ▸ hp)
        have hk8 : 8 - left.length - right.length = k := by omega
        have hparse := ipv6ToGroups_sides (readAs_of_groups hleft) (readAs_of_groups hf)
          (by omega)
        rw [hk8] at hparse
        exact Or.inr ⟨_, hparse, fun n _ =>
          iff_of_true (SamePrefix.refl n _) fun hd => absurd hd hdot⟩
      · have hside : side (ts ++ [dotted [a, b, c, d]]) = ts ++ [dotted [a, b, c, d]] :=
          if_neg (by simp)
        rw [hside] at hsplit
        have hdot := @dot_mem_of_dotted _ [a, b, c, d] (side ls ++ [] :: ts) (by simp)
          (hsplit.trans (by simp))
        have h6 : left.length + k + ms.length = 6 := by
          simp only [List.length_append, List.length_cons, List.length_nil] at h8
          omega
        obtain ⟨vs, hparse, hsame⟩ := @ipv6ToGroups_compressedDotted _ _ _ _ _ a b c d hleft hf h6
        refine Or.inr ⟨vs, hparse, fun n hn => ?_⟩
        rw [leading_compressed hleft hsplit, hsame n hn]
        exact ⟨fun hz _ => ⟨hcolons, hz⟩, fun hz => (hz hdot).2⟩

/-! ## Lines that name a network -/

theorem slashless_address {ns : List Nat} {text : Text} (h : SpellsAddress ns text) :
    '/' ∉ text := fun hm =>
  chars_spellsAddress (P := fun c => c ≠ '/') (fun c hd hc => by rw [hc] at hd; cases hd)
    (by decide) (by decide) h '/' hm rfl

theorem slashless_spelled {f : Family} {a : f.Address} {s : Text} (h : f.Spelled a s) :
    '/' ∉ s := by
  cases f with
  | ip4 =>
      obtain ⟨octets, hs, -⟩ := h
      exact slashless_ip4 hs
  | ip6 => exact slashless_address h

/-- A line that names a network has its address in front of the slash and its prefix behind. -/
theorem texts_of_names {cases : CaseMap} {f : Family} {line : Text} {a : f.Address} {n : Nat}
    {action : Action} (h : Names cases f line a n action) :
    f.Spelled a (addressText line) ∧ SpellsNat n (prefixText line) := by
  obtain ⟨address, bits, hp, ha, hb⟩ := h.param_eq
  have hi := indexOf_append (b := bits) (slashless_spelled ha)
  have haddr : addressText line = address := by
    rw [addressText, hp, hi, sliceTo, List.take_left]
  have hbits : prefixText line = bits := by
    rw [prefixText, hp, hi, sliceAfter, List.drop_append, List.drop_of_length_le (Nat.le_succ _),
      Nat.add_sub_cancel_left]
    rfl
  rw [haddr, hbits]
  exact ⟨ha, hb⟩

/-- The parser accepts a valid address unless a dotted tail makes it miss a group, and the
rule it makes matches the network exactly when no dotted tail hides. -/
theorem rule_of_spelled {f : Family} {a : f.Address} {text : Text} (h : f.Spelled a text)
    {n : Nat} (hn : n ≤ f.width) (action : Action) :
    (∃ rule, f.rule text (some n) action = some rule ∧ rule.action = action ∧
      ∀ ip, f.hits rule ip = true ↔ SamePrefix n (f.bits ip) (f.bits a)) ↔
      f.Undotted a n text := by
  cases f with
  | ip4 =>
      obtain ⟨octets, hs, hv⟩ := h
      refine iff_of_true ⟨.ip ⟨value octets, n, action⟩, ?_, rfl, fun ip => ?_⟩ trivial
      · simp only [Family.rule, ipv4ToInt_spelled hs, Option.bind_some, Option.map_some]
      · rw [hv]
        exact sameNetwork4_iff hn
  | ip6 =>
      have h8 : (Ip6.groups a).length = 8 := (List.length_map _).trans a.property
      simp only [Family.Undotted, Family.bits, bit_eq_groupBits]
      rcases ipv6ToGroups_spelled h h8 with ⟨hnone, hdot, hcolons⟩ | ⟨vs, hsome, hsame⟩
      · simp only [Family.rule, hnone, Option.bind_none]
        refine iff_of_false ?_ fun hu => hcolons (hu hdot).1
        intro h
        obtain ⟨rule, hr, -⟩ := h
        cases hr
      · have hits : ∀ ip : Ip6, Family.hits .ip6 (.ip6 ⟨fins vs, n, action⟩) ip = true ↔
            SamePrefix n (groupBits ip.groups) (groupBits vs) := by
          intro ip
          rw [← bit_eq_groupBits]
          exact samePrefix6_iff n ip vs
        simp only [Family.rule, hsome, Option.bind_some, Option.map_some]
        rw [← hsame n hn]
        constructor
        · intro h
          obtain ⟨rule, hr, -, hm⟩ := h
          cases hr
          exact (hits a).mp ((hm a).mpr (SamePrefix.refl _ _))
        · intro hs
          refine ⟨_, rfl, rfl, fun ip => (hits ip).trans ⟨fun hv => ?_, fun hv => ?_⟩⟩
          · exact fun i hi => (hv i hi).trans (hs i hi).symm
          · exact fun i hi => (hv i hi).trans (hs i hi)

/-- The lines of these types match exactly their networks, and only they compile, exactly
when the parsers accept no line that is not valid and read the address of every valid line. -/
theorem matchesExactly_iff (cases : CaseMap) (f : Family) {line : Text}
    (h : OfType cases f line) : MatchesExactly cases f line ↔ Strict cases f line := by
  have hcompile : ∀ a n action, Names cases f line a n action →
      compileRule cases line = f.rule (addressText line) (some n) action := by
    intro a n action hn
    have hn53 : n < 2 ^ 53 := by
      have hw : f.width ≤ 128 := by cases f <;> decide
      exact Nat.lt_of_le_of_lt (hn.le_width.trans hw) (by decide)
    rw [compileRule_of_type h, hn.target, Option.bind_some,
      toInt?_spellsNat (texts_of_names hn).2 hn53]
  constructor
  · intro hm
    refine ⟨fun ht hp hb => ?_, fun a n action hn => ?_⟩
    · by_contra hnone
      have hc := hm.other fun a n action hn => hnone ⟨a, n, action, hn⟩
      have hsome := (compileRule_isSome_iff h).mpr ⟨ht, hp, hb⟩
      rw [hc] at hsome
      cases hsome
    · have hr := hm.named a n action hn
      rw [hcompile a n action hn] at hr
      exact (rule_of_spelled (texts_of_names hn).1 hn.le_width action).mp hr
  · intro hs
    refine ⟨fun a n action hn => ?_, fun hnone => ?_⟩
    · rw [hcompile a n action hn]
      exact (rule_of_spelled (texts_of_names hn).1 hn.le_width action).mpr
        (hs.undotted a n action hn)
    · rw [← Option.not_isSome_iff_eq_none, compileRule_isSome_iff h]
      intro h
      obtain ⟨ht, hp, hb⟩ := h
      obtain ⟨a, n, action, hn⟩ := hs.valid ht hp hb
      exact hnone a n action hn

/-- A rule with host bits in its address. -/
def hostBitsLine : Text := "ip-cidr, 10.1.2.3/8, direct".toList

theorem hostBitsLine_type : OfType .ascii .ip4 hostBitsLine := by
  refine ⟨by decide, ⟨by decide, by decide⟩, by decide⟩

theorem hostBitsLine_matches : MatchesExactly .ascii .ip4 hostBitsLine := by
  refine (matchesExactly_iff .ascii .ip4 hostBitsLine_type).mpr
    ⟨fun _ _ _ => ?_, fun _ _ _ _ => trivial⟩
  have hparts : List.Forall₂ SpellsOctet [10, 1, 2, 3]
      ["10".toList, "1".toList, "2".toList, "3".toList] := by
    repeat' constructor
    all_goals decide
  refine ⟨(0x0a010203 : UInt32), 8, .direct, ⟨"10.1.2.3".toList, "8".toList, by decide,
    ⟨[10, 1, 2, 3], ⟨rfl, _, hparts, rfl⟩, by decide⟩, by decide, by decide, by decide⟩,
    by decide, by decide⟩

/-- A line without a prefix. `Number` reads the empty text as zero, so the rule matches every
address. -/
def blankPrefixLine : Text := "IP-CIDR,10.0.0.0/,DIRECT".toList

theorem blank_prefix_compiles :
    ¬ ∀ (cases : CaseMap) (f : Family) (line : Text), OfType cases f line →
      MatchesExactly cases f line := by
  intro h
  have htype : OfType .ascii .ip4 blankPrefixLine :=
    ⟨by decide, ⟨by decide, by decide⟩, by decide⟩
  have hnone := (h .ascii .ip4 blankPrefixLine htype).other fun a n action hn =>
    (texts_of_names hn).2.1 (by decide)
  have hsome := (compileRule_isSome_iff htype).mpr ⟨by decide, by decide +kernel, by decide +kernel⟩
  rw [hnone] at hsome
  cases hsome

end DshClashProxy.Core.CidrRules
