import DshClashProxy.Core.CidrRules

/-!
# The loader of the IPv6 table

The embedded list of IPv6 networks is text, and the loader parses it with code of its own:
it looks for the first empty part between two colons, where `ipv6ToGroups` looks for a double
colon. Both make the same eight groups of an address, and the table the loader leaves is
sorted.
-/
namespace DshClashProxy.Core.Ip6Loader

open Js Js.Text Rules InboundHost EncodeAddr CnCidrs CidrRules

/-- `groups[index] = value`. A negative index is no element of the array. A write behind the
end makes the array grow, and the elements in between read as `undefined`. -/
def store (groups : List Number) (index : Int) (value : Number) : List Number :=
  if index < 0 then groups
  else if index.toNat < groups.length then groups.set index.toNat value
  else groups ++ List.replicate (index.toNat - groups.length) .nan ++ [value]

/-- Write the parts that are not empty, from an index on. -/
def storeParts (groups : List Number) (index : Int) : List Text → List Number
  | [] => groups
  | part :: rest =>
      storeParts (if part.isEmpty then groups else store groups index (Number.parseHex part))
        (index + 1) rest

/-- The groups of a network, from eight zeros. -/
def loadGroups (network : Text) : List Number :=
  let parts := network.splitOn ':'
  let groups := List.replicate 8 0
  match parts.idxOf? [] with
  | some empty =>
      let left := parts.take empty
      let right := parts.drop (empty + 1)
      storeParts (storeParts groups 0 left) (8 - right.length) right
  | none => storeParts groups 0 parts -- no part is empty

/-- The row of one entry of the list. -/
def loadCidr6 (cidr : Text) : List Number × Number :=
  let slash := indexOf cidr '/'
  (loadGroups (sliceTo cidr slash), Number.ofText (sliceAfter cidr slash))

/-- The first difference in the eight groups is not positive, and without one that of the
prefixes is not. `sort` takes NaN for zero. -/
def rowLe6 (a b : List Number × Number) : Bool :=
  match ((a.1.zip b.1).take 8).find? fun p => p.1.isNaN || p.1 ≠ p.2 with
  | some (x, y) => !y.lt x
  | none => !b.2.lt a.2

/-- The table that is filled from the list. -/
def loadCidrs6 (cidrs : List Text) : List (List Number × Number) :=
  (cidrs.map loadCidr6).mergeSort rowLe6

/-- The textual forms of groups without a dotted tail. -/
inductive SpellsGroups : List Nat → Text → Prop where
  | full {ns ss} : List.Forall₂ SpellsGroup ns ss → SpellsGroups ns ([':'].intercalate ss)
  | compressed {left right ls rs} (k : Nat) : 0 < k → List.Forall₂ SpellsGroup left ls →
      List.Forall₂ SpellsGroup right rs →
      SpellsGroups (left ++ List.replicate k 0 ++ right)
        ([':'].intercalate ls ++ "::".toList ++ [':'].intercalate rs)

example : loadGroups "2001:db8::a".toList = fins [0x2001, 0xdb8, 0, 0, 0, 0, 0, 0xa] := by
  decide +kernel

/-! ## Writing groups -/

theorem store_at {a c : List Number} {b value : Number} {i : Int}
    (h : i = a.length) : store (a ++ b :: c) i value = a ++ value :: c := by
  have hlen : i.toNat = a.length := by omega
  rw [store, if_neg (by omega), hlen, if_pos (by simp), List.set_append_right _ _ (Nat.le_refl _),
    Nat.sub_self, List.set_cons_zero]

/-- Parts that are read as groups replace what stands at their place. -/
theorem storeParts_readAs {ns : List Nat} {ss : List Text} (h : List.Forall₂ ReadAs ns ss)
    {a b c : List Number} (hb : b.length = ns.length) {i : Int} (hi : i = a.length) :
    storeParts (a ++ b ++ c) i ss = a ++ fins ns ++ c := by
  induction h generalizing a b i with
  | nil =>
      rw [List.length_eq_zero_iff.mp hb]
      rfl
  | @cons n s ns ss hp _ ih =>
      obtain ⟨v, b, rfl⟩ := List.exists_cons_of_length_eq_add_one hb
      have hne : s.isEmpty = false := by simpa using hp.2.1
      have htext : a ++ v :: b ++ c = a ++ v :: (b ++ c) := by simp
      have hnext : a ++ Number.finite n :: (b ++ c) = (a ++ [.finite n]) ++ b ++ c := by simp
      rw [storeParts, hne, if_neg Bool.false_ne_true, hp.1, htext, store_at hi, hnext,
        ih (Nat.succ.inj hb) (by rw [List.length_append, hi]; rfl)]
      simp [fins]

theorem storeParts_empty (groups : List Number) (index : Int) (rest : List Text) :
    storeParts groups index ([] :: rest) = storeParts groups (index + 1) rest := rfl

/-- The parts behind a double colon end up last. -/
theorem storeParts_side {ns : List Nat} {ss : List Text} (h : List.Forall₂ ReadAs ns ss)
    {a b : List Number} (hb : b.length = ns.length) {i : Int}
    (hi : i = (a.length + ns.length : Nat) - (side ss).length) :
    storeParts (a ++ b) i (side ss) = a ++ fins ns := by
  cases h with
  | nil =>
      rw [List.length_eq_zero_iff.mp hb]
      rfl
  | @cons n s ns ss hp ht =>
      have hside : side (s :: ss) = s :: ss := if_neg (List.cons_ne_nil s ss)
      have hlen := (List.Forall₂.cons hp ht).length_eq
      rw [hside] at hi ⊢
      have hstore := storeParts_readAs (.cons hp ht) hb (c := []) (a := a) (i := i) (by omega)
      rwa [List.append_nil, List.append_nil] at hstore

/-! ## The groups of a network -/

theorem loadGroups_full {ns : List Nat} {ss : List Text} (h : List.Forall₂ ReadAs ns ss)
    (h8 : ns.length = 8) : loadGroups ([':'].intercalate ss) = fins ns := by
  have hne : ss ≠ [] := by
    rintro rfl
    cases h
    cases h8
  have hpieces := readAs_pieces h
  have hsplit := List.splitOn_intercalate ':' (fun p hp => (hpieces p hp).2) hne
  have hnone : ss.idxOf? [] = none :=
    List.idxOf?_eq_none_iff.mpr fun hm => (hpieces [] hm).1 rfl
  rw [loadGroups, hsplit]
  simp only [hnone]
  have hstore := storeParts_readAs h (b := List.replicate 8 0) (a := []) (c := [])
    (by rw [List.length_replicate, h8]) (i := 0) rfl
  rwa [List.append_nil, List.append_nil] at hstore

theorem replicate_split {k m n : Nat} (h : k + m = n) (value : Number) :
    List.replicate n value = List.replicate k value ++ List.replicate m value := by
  rw [List.replicate_append_replicate, h]

/-- The parts of a text with a double colon are cut at the first empty one. Where nothing
stands in front of the double colon, the second empty part begins the tail. -/
theorem loadGroups_cut {ls rs : List Text} (hl : ∀ s ∈ ls, s ≠ [] ∧ ':' ∉ s)
    (hr : ∀ s ∈ rs, ':' ∉ s) :
    loadGroups ([':'].intercalate ls ++ "::".toList ++ [':'].intercalate rs) =
      storeParts (storeParts (List.replicate 8 0) 0 ls) (8 - (side rs).length) (side rs) := by
  rw [loadGroups, splitOn_compressed (fun s hs => (hl s hs).2) hr]
  cases ls with
  | nil =>
      have hindex : (8 : Int) - ([] :: side rs).length + 1 = 8 - (side rs).length := by
        rw [List.length_cons]
        omega
      change storeParts (List.replicate 8 0) (8 - ([] :: side rs).length) ([] :: side rs) = _
      rw [storeParts_empty, hindex]
      rfl
  | cons l ls =>
      have hcut := idxOf?_append (b := side rs) (a := l :: ls) (c := []) fun hm =>
        (hl [] hm).1 rfl
      have hdrop : (l :: ls ++ [] :: side rs).drop ((l :: ls).length + 1) = side rs := by
        rw [List.drop_append, List.drop_of_length_le (Nat.le_succ _), Nat.add_sub_cancel_left]
        rfl
      rw [show side (l :: ls) = l :: ls from if_neg (List.cons_ne_nil l ls)]
      simp only [hcut, List.take_left, hdrop]

theorem loadGroups_compressed {left right : List Nat} {ls rs : List Text}
    (hl : List.Forall₂ ReadAs left ls) (hr : List.Forall₂ ReadAs right rs)
    (h7 : left.length + right.length ≤ 7) :
    loadGroups ([':'].intercalate ls ++ "::".toList ++ [':'].intercalate rs) =
      fins (left ++ List.replicate (8 - left.length - right.length) 0 ++ right) := by
  have hleft := storeParts_readAs hl (b := List.replicate left.length 0) (a := [])
    (c := List.replicate (8 - left.length) 0) List.length_replicate (i := 0) rfl
  have hzeros := replicate_split (k := 8 - left.length - right.length) (m := right.length)
    (n := 8 - left.length) (by omega) 0
  have hright := storeParts_side hr (b := List.replicate right.length 0)
    (a := fins left ++ List.replicate (8 - left.length - right.length) 0)
    (i := 8 - (side rs).length) List.length_replicate
    (by rw [List.length_append, length_fins, List.length_replicate]; omega)
  rw [List.append_assoc, ← hzeros] at hright
  rw [List.nil_append, List.nil_append, ← replicate_split (n := 8) (by omega) 0] at hleft
  rw [loadGroups_cut (readAs_pieces hl) fun s hs => (readAs_pieces hr s hs).2, hleft, hright]
  simp only [fins, List.map_append, List.map_replicate]
  rfl

/-! ## The two parsers -/

theorem slashless_groups {ns : List Nat} {text : Text} (h : SpellsGroups ns text) :
    '/' ∉ text := by
  cases h with
  | full hs => exact slashless_address (.full (spells_of_groups hs))
  | compressed k hk hl hr => exact slashless_address (.compressed k hk hl (spells_of_groups hr))

theorem ne_nil_of_groups {ns : List Nat} {ss : List Text} (h : List.Forall₂ SpellsGroup ns ss)
    (h8 : ns.length = 8) : ss ≠ [] := by
  rintro rfl
  cases h
  cases h8

theorem loadGroups_spelled {ns : List Nat} {text : Text} (h : SpellsGroups ns text)
    (h8 : ns.length = 8) : loadGroups text = fins ns := by
  cases h with
  | full hs => exact loadGroups_full (readAs_of_groups hs) h8
  | @compressed left right ls rs k hk hl hr =>
      simp only [List.length_append, List.length_replicate] at h8
      have hload := loadGroups_compressed (readAs_of_groups hl) (readAs_of_groups hr) (by omega)
      rwa [show 8 - left.length - right.length = k by omega] at hload

theorem ipv6ToGroups_groups {ns : List Nat} {text : Text} (h : SpellsGroups ns text)
    (h8 : ns.length = 8) : ipv6ToGroups text = some (fins ns) := by
  cases h with
  | full hs =>
      have hparse := ipv6ToGroups_pieces (readAs_of_groups hs) (ne_nil_of_groups hs h8)
      rwa [if_pos h8] at hparse
  | @compressed left right ls rs k hk hl hr =>
      simp only [List.length_append, List.length_replicate] at h8
      have hparse := ipv6ToGroups_sides (readAs_of_groups hl) (readAs_of_groups hr) (by omega)
      rwa [show 8 - left.length - right.length = k by omega] at hparse

theorem loadCidr6_append {network : Text} (h : '/' ∉ network) (bits : Text) :
    loadCidr6 (network ++ '/' :: bits) = (loadGroups network, Number.ofText bits) := by
  have hdrop : (network ++ '/' :: bits).drop (network.length + 1) = bits := by
    rw [List.drop_append, List.drop_of_length_le (Nat.le_succ _), Nat.add_sub_cancel_left]
    rfl
  simp only [loadCidr6, indexOf_append h, sliceTo, sliceAfter, List.take_left, hdrop]

/-- The loader and `ipv6ToGroups` both read the groups of an address. -/
theorem parsers_agree {ns : List Nat} {text : Text} (h : SpellsGroups ns text)
    (h8 : ns.length = 8) (bits : Text) :
    (loadCidr6 (text ++ '/' :: bits)).1 = fins ns ∧ ipv6ToGroups text = some (fins ns) := by
  rw [loadCidr6_append (slashless_groups h)]
  exact ⟨loadGroups_spelled h h8, ipv6ToGroups_groups h h8⟩

theorem parsers_agree_leading :
    (loadCidr6 ("::a:B".toList ++ '/' :: "32".toList)).1 = fins [0, 0, 0, 0, 0, 0, 10, 11] ∧
      ipv6ToGroups "::a:B".toList = some (fins [0, 0, 0, 0, 0, 0, 10, 11]) :=
  parsers_agree (@SpellsGroups.compressed [] [10, 11] [] ["a".toList, "B".toList] 6 (by decide)
    .nil (.cons (by decide) (.cons (by decide) .nil))) rfl _

/-! ## The table -/

/-- The entry of a network in the list. -/
def EntryOf (c : Cidr6) (s : Text) : Prop :=
  ∃ text bits, SpellsGroups c.network.groups text ∧ SpellsNat c.bits bits ∧ s = text ++ '/' :: bits

/-- The row the loader makes of a row of the table; its prefix is a number like any other. -/
def loadedRow (r : List Number × Nat) : List Number × Number := (r.1, .finite r.2)

theorem ofText_spellsNat {n : Nat} {s : Text} (h : SpellsNat n s) (hn : n < 2 ^ 53) :
    Number.ofText s = .finite n := by
  obtain ⟨hne, hd, rfl⟩ := h
  rw [Number.ofText_digits hne (List.all_eq_true.mp hd), Number.round_natCast hn]

theorem loadCidr6_entry {c : Cidr6} {s : Text} (h : EntryOf c s) :
    loadCidr6 s = loadedRow c.row := by
  obtain ⟨text, bits, ht, hb, rfl⟩ := h
  have h8 : c.network.groups.length = 8 := (List.length_map _).trans c.network.property
  have hbits : c.bits < 2 ^ 53 := Nat.lt_of_le_of_lt c.bits_le (by decide)
  rw [loadCidr6_append (slashless_groups ht), loadGroups_spelled ht h8, ofText_spellsNat hb hbits,
    fins, ← numbers_eq]
  rfl

/-- Among groups that are numbers the first difference is that of the lookup. -/
theorem find_difference (as bs : List UInt16) :
    ((as.map fun g => Number.finite g.toNat).zip (bs.map fun g => Number.finite g.toNat)).find?
      (fun p => p.1.isNaN || p.1 ≠ p.2) =
    firstDifference (as.map fun g => Number.finite g.toNat)
      (bs.map fun g => Number.finite g.toNat) := by
  induction as generalizing bs with
  | nil => simp [firstDifference]
  | cons a as ih =>
      cases bs with
      | nil => simp [firstDifference]
      | cons b bs =>
          rw [List.map_cons, List.map_cons, List.zip_cons_cons, List.find?_cons, firstDifference,
            ih]
          by_cases hab : Number.finite a.toNat = Number.finite b.toNat
          · simp [hab, Number.isNaN]
          · simp [hab]

theorem firstDifference_ne {as bs : List UInt16} {x y : Number}
    (h : firstDifference (as.map fun g => Number.finite g.toNat)
      (bs.map fun g => Number.finite g.toNat) = some (x, y)) :
    ∃ m n : Nat, m ≠ n ∧ x = .finite m ∧ y = .finite n := by
  induction as generalizing bs with
  | nil => cases h
  | cons a as ih =>
      cases bs with
      | nil => cases h
      | cons b bs =>
          rw [List.map_cons, List.map_cons, firstDifference] at h
          by_cases hab : Number.finite a.toNat = Number.finite b.toNat
          · rw [if_neg (not_not.mpr hab)] at h
            exact ih h
          · rw [if_pos hab] at h
            cases h
            exact ⟨a.toNat, b.toNat, fun he => hab (by rw [he]), rfl, rfl⟩

theorem rowLe6_iff (c d : Cidr6) :
    rowLe6 (loadedRow c.row) (loadedRow d.row) = true ↔ c.Precedes d := by
  have hc := c.network.property
  have hd := d.network.property
  have htake : (c.network.numbers.zip d.network.numbers).take 8 =
      c.network.numbers.zip d.network.numbers :=
    List.take_of_length_le (by simp [Ip6.numbers, hc])
  have hdiff := firstDifference_groups (hc.trans hd.symm)
  rw [rowLe6]
  change (match ((c.network.numbers.zip d.network.numbers).take 8).find? _ with
    | some (x, y) => !y.lt x
    | none => !(Number.finite d.bits).lt (.finite c.bits)) = true ↔ _
  rw [htake, Ip6.numbers, Ip6.numbers, find_difference]
  split
  · next x y heq =>
      obtain ⟨m, n, hmn, rfl, rfl⟩ := firstDifference_ne heq
      rw [heq] at hdiff
      obtain ⟨hne, hlt⟩ := hdiff
      rw [Cidr6.Precedes, ← hlt, Bool.not_eq_true', ← Bool.not_eq_true, Number.lt_natCast,
        Number.lt_natCast]
      constructor
      · intro h
        exact Or.inl (by omega)
      · intro h
        rcases h with h | h
        · omega
        · exact absurd h.1 hne
  · next heq =>
      rw [heq] at hdiff
      have hirrefl : ¬ c.network.val < c.network.val := List.lt_irrefl _
      rw [Bool.not_eq_true', ← Bool.not_eq_true, Number.lt_natCast, not_lt, Cidr6.Precedes,
        ← hdiff]
      exact ⟨fun h => Or.inr ⟨rfl, h⟩, fun h => (h.resolve_left fun h => hirrefl h).2⟩

instance (c d : Cidr6) : Decidable (c.Precedes d) :=
  decidable_of_iff _ (rowLe6_iff c d)

theorem precedes_trans {a b c : Cidr6} (h : a.Precedes b) (h' : b.Precedes c) :
    a.Precedes c := by
  rcases h with h | ⟨he, hb⟩
  · rcases h' with h' | ⟨he', -⟩
    · exact Or.inl (List.lt_trans h h')
    · exact Or.inl (he' ▸ h)
  · rcases h' with h' | ⟨he', hb'⟩
    · exact Or.inl (he ▸ h')
    · exact Or.inr ⟨he.trans he', hb.trans hb'⟩

theorem precedes_total (a b : Cidr6) : a.Precedes b ∨ b.Precedes a := by
  by_cases hab : a.network.val < b.network.val
  · exact Or.inl (Or.inl hab)
  · by_cases hba : b.network.val < a.network.val
    · exact Or.inr (Or.inl hba)
    · have heq : a.network.val = b.network.val := List.le_antisymm hba hab
      rcases Nat.le_total a.bits b.bits with hb | hb
      · exact Or.inl (Or.inr ⟨heq, hb⟩)
      · exact Or.inr (Or.inr ⟨heq.symm, hb⟩)

/-- The loader leaves the networks of the list, sorted. -/
theorem loadCidrs6_table {cs : List Cidr6} {cidrs : List Text}
    (h : List.Forall₂ EntryOf cs cidrs) :
    ∃ t : Table6, t.entries.Perm cs ∧ loadCidrs6 cidrs = t.rows.map loadedRow := by
  have hrows : cidrs.map loadCidr6 = cs.map fun c => loadedRow c.row := by
    induction h with
    | nil => rfl
    | cons hs _ ih => rw [List.map_cons, List.map_cons, ih, loadCidr6_entry hs]
  have htrans : ∀ a b c : Cidr6, decide (a.Precedes b) = true → decide (b.Precedes c) = true →
      decide (a.Precedes c) = true := fun a b c hab hbc =>
    decide_eq_true (precedes_trans (of_decide_eq_true hab) (of_decide_eq_true hbc))
  have htotal : ∀ a b : Cidr6, (decide (a.Precedes b) || decide (b.Precedes a)) = true :=
    fun a b => by simpa using precedes_total a b
  have hsorted := List.pairwise_mergeSort htrans htotal cs
  refine ⟨⟨_, hsorted.imp fun h => of_decide_eq_true h⟩, List.mergeSort_perm _ _, ?_⟩
  rw [loadCidrs6, hrows, Table6.rows, List.map_map]
  refine (List.map_mergeSort fun c _ d _ => ?_).symm
  rw [Bool.eq_iff_iff, decide_eq_true_iff]
  exact (rowLe6_iff c d).symm

end DshClashProxy.Core.Ip6Loader
