import Mathlib.Data.List.Basic
import Mathlib.Data.Nat.Bitwise

/-!
# Address prefixes

Addresses are read from their most significant bit. A network is a base and a number of
bits; it contains the addresses whose first bits are those of the base. In a table sorted by
base, a scan may stop at the first base above the address, as a base without host bits is
the least address of its network.
-/
namespace DshClashProxy.Lib.Cidr

/-- The bits of a number of this width, the most significant first. -/
def bit (width a i : Nat) : Bool := a.testBit (width - 1 - i)

/-- The first bits agree, this many. -/
def SamePrefix (n : Nat) (a b : Nat → Bool) : Prop := ∀ i < n, a i = b i

instance (n : Nat) (a b : Nat → Bool) : Decidable (SamePrefix n a b) :=
  inferInstanceAs (Decidable (∀ i < n, a i = b i))

/-- All bits behind the prefix are zero. -/
def HostZero (width n : Nat) (a : Nat → Bool) : Prop := ∀ i < width, n ≤ i → a i = false

instance (width n : Nat) (a : Nat → Bool) : Decidable (HostZero width n a) :=
  inferInstanceAs (Decidable (∀ i < width, n ≤ i → a i = false))

theorem SamePrefix.refl (n : Nat) (a : Nat → Bool) : SamePrefix n a a := fun _ _ => rfl

theorem SamePrefix.mono {m n : Nat} (h : m ≤ n) {a b : Nat → Bool} (hs : SamePrefix n a b) :
    SamePrefix m a b := fun i hi => hs i (Nat.lt_of_lt_of_le hi h)

section Numbers
variable {width n a b : Nat}

/-- Prefixes of numbers agree when the numbers without their last bits do. -/
theorem samePrefix_iff_div (hn : n ≤ width) (ha : a < 2 ^ width) (hb : b < 2 ^ width) :
    SamePrefix n (bit width a) (bit width b) ↔
      a / 2 ^ (width - n) = b / 2 ^ (width - n) := by
  constructor
  · intro h
    refine Nat.eq_of_testBit_eq fun j => ?_
    rw [Nat.testBit_div_two_pow, Nat.testBit_div_two_pow]
    by_cases hj : j < n
    · have hi := h (n - 1 - j) (by omega)
      rw [bit, bit, show width - 1 - (n - 1 - j) = j + (width - n) by omega] at hi
      exact hi
    · have hle : 2 ^ width ≤ 2 ^ (j + (width - n)) := Nat.pow_le_pow_right (by decide) (by omega)
      rw [Nat.testBit_lt_two_pow (Nat.lt_of_lt_of_le ha hle),
        Nat.testBit_lt_two_pow (Nat.lt_of_lt_of_le hb hle)]
  · intro h i hi
    have hj := congrArg (fun q => q.testBit (n - 1 - i)) h
    simp only [Nat.testBit_div_two_pow] at hj
    rw [show n - 1 - i + (width - n) = width - 1 - i by omega] at hj
    exact hj

/-- A number has no host bits when it is a multiple of the size of the network. -/
theorem hostZero_iff_mod (hn : n ≤ width) :
    HostZero width n (bit width a) ↔ a % 2 ^ (width - n) = 0 := by
  constructor
  · intro h
    refine Nat.eq_of_testBit_eq fun j => ?_
    rw [Nat.testBit_mod_two_pow, Nat.zero_testBit]
    by_cases hj : j < width - n
    · have hi := h (width - 1 - j) (by omega) (by omega)
      rw [bit, show width - 1 - (width - 1 - j) = j by omega] at hi
      rw [hi, Bool.and_false]
    · rw [decide_eq_false hj, Bool.false_and]
  · intro h i hw hi
    have hj := congrArg (fun q => q.testBit (width - 1 - i)) h
    simp only [Nat.testBit_mod_two_pow, Nat.zero_testBit,
      decide_eq_true (show width - 1 - i < width - n by omega), Bool.true_and] at hj
    exact hj

/-- A base without host bits is the least address of its network. -/
theorem base_le (hn : n ≤ width) (ha : a < 2 ^ width) (hb : b < 2 ^ width)
    (h0 : HostZero width n (bit width b)) (h : SamePrefix n (bit width a) (bit width b)) :
    b ≤ a := by
  rw [samePrefix_iff_div hn ha hb] at h
  rw [hostZero_iff_mod hn] at h0
  calc b = 2 ^ (width - n) * (b / 2 ^ (width - n)) + b % 2 ^ (width - n) :=
        (Nat.div_add_mod b _).symm
    _ = 2 ^ (width - n) * (a / 2 ^ (width - n)) := by rw [h0, h, Nat.add_zero]
    _ ≤ a := Nat.mul_div_le a _

end Numbers

section Scans
variable {β : Type}

/-- Walk over a table until an entry stops the walk or is a hit. -/
def scan (stop hit : β → Bool) : List β → Bool
  | [] => false
  | entry :: rest => if stop entry then false else if hit entry then true else scan stop hit rest

/-- Where no hit stops the walk and none comes behind an entry that does, the walk finds a hit
if there is one. -/
theorem scan_iff {stop hit : β → Bool} {table : List β}
    (hhit : ∀ entry ∈ table, hit entry = true → stop entry = false)
    (hstop : table.Pairwise fun entry later => stop entry = true → hit later = false) :
    scan stop hit table = true ↔ ∃ entry ∈ table, hit entry = true := by
  induction table with
  | nil => simp [scan]
  | cons entry rest ih =>
      obtain ⟨hlater, hrest⟩ := List.pairwise_cons.mp hstop
      have ih := ih (fun e he => hhit e (List.mem_cons_of_mem _ he)) hrest
      rw [scan, List.exists_mem_cons_iff]
      by_cases hs : stop entry = true
      · rw [if_pos hs]
        refine iff_of_false Bool.false_ne_true ?_
        rintro (he | ⟨later, hl, he⟩)
        · exact absurd hs (by rw [hhit entry List.mem_cons_self he]; exact Bool.false_ne_true)
        · exact absurd he (by rw [hlater later hl hs]; exact Bool.false_ne_true)
      · rw [if_neg hs]
        by_cases hh : hit entry = true
        · rw [if_pos hh]
          exact iff_of_true rfl (Or.inl hh)
        · rw [if_neg hh, ih, or_iff_right hh]

end Scans

end DshClashProxy.Lib.Cidr
