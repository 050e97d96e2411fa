import DshClashProxy.Js.Number
import DshClashProxy.Lib.Json
import Mathlib.Data.Nat.Log

/-!
# Numbers as texts

`String(number)` takes the fewest digits that read back as the number, and of these the ones
nearest to it. Up to 21 places they stand in full, else with an exponent. What a finite number
gives is a JSON numeral.
-/
namespace DshClashProxy.Js.Number

open Lib.Json (Numeral)

/-- The number of places in front of the point of a positive rational, less the zeros behind it
when there are none. -/
def magnitude (q : ℚ) : Int :=
  if q.den ≤ q.num.toNat then Nat.log 10 (q.num.toNat / q.den) + 1
  else 1 - Nat.clog 10 ((q.den + q.num.toNat - 1) / q.num.toNat)

def scaled (s : Nat) (e : Int) : ℚ := s * 10 ^ e.toNat / 10 ^ (-e).toNat

/-- The multiple of a power of ten at or below a rational. -/
def lower (q : ℚ) (e : Int) : Nat :=
  q.num.toNat * 10 ^ (-e).toNat / (q.den * 10 ^ e.toNat)

/-- The nearest multiple of a power of ten that rounds to the number, ties to even. -/
def fit (q : ℚ) (e : Int) : Option Nat :=
  let s := lower q e
  let below := q - scaled s e
  let above := scaled (s + 1) e - q
  if round (scaled s e) = .finite q ∧ (round (scaled (s + 1) e) ≠ .finite q ∨ below < above ∨
      below = above ∧ s % 2 = 0) then some s
  else if round (scaled (s + 1) e) = .finite q then some (s + 1)
  else none

/-- The fewest digits of a positive number and the power of ten they are multiplied with. No
double takes more than 17. -/
def shortest (q : ℚ) : Nat × Int :=
  ((List.range 17).findSome? fun (k : Nat) =>
    (fit q (magnitude q - (k + 1))).map fun s => (s, magnitude q - (k + 1))).getD
      (lower q (magnitude q - 17), magnitude q - 17)

/-- Digits of which the first is not zero. -/
abbrev Digits :=
  {ds : Text // ds ≠ [] ∧ (∀ c ∈ ds, c.isDigit = true) ∧ ds.head? ≠ some '0'}

/-- Digits without the zeros at their end. -/
def strip (ds : Text) : Text := (ds.reverse.dropWhile (· = '0')).reverse

theorem toDigits_head {s : Nat} (h : 0 < s) : (Nat.toDigits 10 s).head? ≠ some '0' := by
  induction s using Nat.strong_induction_on with
  | _ s ih =>
      rw [Nat.toDigits_eq_if (by decide)]
      split
      · next hlt =>
          have hdigit : ∀ d < 10, 0 < d → some (Nat.digitChar d) ≠ some '0' := by decide
          exact hdigit s hlt h
      · next hge =>
          have hrest := ih (s / 10) (by omega) (by omega)
          rwa [List.head?_append_of_ne_nil _ Nat.toDigits_ne_nil]

theorem strip_append (ds : Text) : ∃ k, ds = strip ds ++ List.replicate k '0' := by
  refine ⟨(ds.reverse.takeWhile (· = '0')).length, ?_⟩
  have hzeros : ds.reverse.takeWhile (· = '0') =
      List.replicate (ds.reverse.takeWhile (· = '0')).length '0' :=
    List.eq_replicate_of_mem fun c hc => by simpa using List.mem_takeWhile_imp hc
  rw [strip, ← List.reverse_reverse (List.replicate _ '0'), List.reverse_replicate, ← hzeros,
    ← List.reverse_append, List.takeWhile_append_dropWhile, List.reverse_reverse]

theorem strip_head {ds : Text} (h : ds.head? ≠ some '0') (hne : ds ≠ []) :
    strip ds ≠ [] ∧ (strip ds).head? ≠ some '0' := by
  obtain ⟨k, hk⟩ := strip_append ds
  cases hs : strip ds with
  | nil =>
      rw [hs, List.nil_append] at hk
      cases k with
      | zero => exact absurd hk hne
      | succ k => rw [hk] at h; exact absurd rfl h
  | cons c rest =>
      refine ⟨List.cons_ne_nil _ _, ?_⟩
      rw [hk, hs] at h
      exact h

/-- The digits of a positive number up to the last that is not zero. -/
def significant (s : Nat) (h : 0 < s) : Digits :=
  ⟨strip (Nat.toDigits 10 s), (strip_head (toDigits_head h) Nat.toDigits_ne_nil).1,
    fun c hc => by
      obtain ⟨k, hk⟩ := strip_append (Nat.toDigits 10 s)
      refine Nat.isDigit_of_mem_toDigits (by decide) (le_refl 10) (?_ : c ∈ Nat.toDigits 10 s)
      rw [hk]
      exact List.mem_append_left _ hc,
    (strip_head (toDigits_head h) Nat.toDigits_ne_nil).2⟩

theorem head_take {α : Type} {n : Nat} (h : 0 < n) (l : List α) : (l.take n).head? = l.head? := by
  obtain ⟨n, rfl⟩ := Nat.exists_eq_succ_of_ne_zero (Nat.pos_iff_ne_zero.mp h)
  cases l <;> rfl

theorem take_ne_nil {α : Type} {n : Nat} (h : 0 < n) {l : List α} (hl : l ≠ []) :
    l.take n ≠ [] := by
  rw [Ne, List.take_eq_nil_iff, not_or]
  exact ⟨by omega, hl⟩

theorem no_digits : ∀ c ∈ ([] : Text), c.isDigit = true := fun _ hc => absurd hc List.not_mem_nil

theorem no_exponent : ∀ e ∈ (none : Option (Char × Text)),
    (e.1 = '+' ∨ e.1 = '-') ∧ e.2 ≠ [] ∧ ∀ c ∈ e.2, c.isDigit = true := fun e he => by cases he

/-- Digits with the point behind so many of them, where it may lie before the first or behind the
last. -/
def layout (negative : Bool) (ds : Digits) (point : Int) : Numeral :=
  if (ds.val.length : Int) ≤ point ∧ point ≤ 21 then
    { negative, whole := ds.val ++ List.replicate (point.toNat - ds.val.length) '0'
      whole_ne := fun h => ds.property.1 (List.append_eq_nil_iff.mp h).1
      whole_digits := fun c hc => (List.mem_append.mp hc).elim (ds.property.2.1 c)
        fun hz => by rw [List.eq_of_mem_replicate hz]; rfl
      whole_head := fun h => absurd (by rwa [List.head?_append_of_ne_nil _ ds.property.1] at h)
        ds.property.2.2
      fraction_digits := no_digits, exponent_form := no_exponent }
  else if hp : 0 < point ∧ point ≤ 21 then
    { negative, whole := ds.val.take point.toNat, fraction := ds.val.drop point.toNat
      whole_ne := take_ne_nil (by omega) ds.property.1
      whole_digits := fun c hc => ds.property.2.1 c (List.mem_of_mem_take hc)
      whole_head := fun h => absurd (by rwa [head_take (by omega)] at h) ds.property.2.2
      fraction_digits := fun c hc => ds.property.2.1 c (List.mem_of_mem_drop hc)
      exponent_form := no_exponent }
  else if -6 < point ∧ point ≤ 0 then
    { negative, whole := ['0'], fraction := List.replicate (-point).toNat '0' ++ ds.val
      whole_ne := List.cons_ne_nil _ _
      whole_digits := fun c hc => by rw [List.mem_singleton.mp hc]; rfl
      whole_head := fun _ => rfl
      fraction_digits := fun c hc => (List.mem_append.mp hc).elim
        (fun hz => by rw [List.eq_of_mem_replicate hz]; rfl) (ds.property.2.1 c)
      exponent_form := no_exponent }
  else
    { negative, whole := ds.val.take 1, fraction := ds.val.drop 1
      exponent := some (if 0 < point then '+' else '-', Nat.toDigits 10 (point - 1).natAbs)
      whole_ne := take_ne_nil Nat.one_pos ds.property.1
      whole_digits := fun c hc => ds.property.2.1 c (List.mem_of_mem_take hc)
      whole_head := fun h => absurd (by rwa [head_take Nat.one_pos] at h) ds.property.2.2
      fraction_digits := fun c hc => ds.property.2.1 c (List.mem_of_mem_drop hc)
      exponent_form := fun e he => by
        obtain rfl := Option.some.inj he
        refine ⟨?_, Nat.toDigits_ne_nil, fun c hc =>
          Nat.isDigit_of_mem_toDigits (by decide) (le_refl 10) hc⟩
        dsimp only
        split
        · exact .inl rfl
        · exact .inr rfl }

theorem lower_pos {q : ℚ} (h : 0 < q) {e : Int} (he : e ≤ magnitude q - 1) : 0 < lower q e := by
  have hnum : 0 < q.num.toNat := by
    have := Rat.num_pos.mpr h
    omega
  refine Nat.div_pos ?_ (Nat.mul_pos q.den_pos (Nat.pow_pos (by decide)))
  unfold magnitude at he
  split at he
  · next hle =>
      have hlog : 10 ^ Nat.log 10 (q.num.toNat / q.den) * q.den ≤ q.num.toNat :=
        (Nat.le_div_iff_mul_le q.den_pos).mp
          (Nat.pow_log_le_self 10 (Nat.div_pos hle q.den_pos).ne')
      calc q.den * 10 ^ e.toNat ≤ q.den * 10 ^ Nat.log 10 (q.num.toNat / q.den) :=
            Nat.mul_le_mul_left _ (Nat.pow_le_pow_right (by decide) (by omega))
        _ ≤ q.num.toNat := by rwa [Nat.mul_comm]
        _ ≤ q.num.toNat * 10 ^ (-e).toNat := Nat.le_mul_of_pos_right _ (Nat.pow_pos (by decide))
  · next hlt =>
      have hclog := Nat.le_pow_clog (b := 10) (by decide) ((q.den + q.num.toNat - 1) / q.num.toNat)
      have hceil : q.den ≤ (q.den + q.num.toNat - 1) / q.num.toNat * q.num.toNat := by
        have := Nat.lt_div_mul_add (a := q.den + q.num.toNat - 1) hnum
        omega
      have hzero : e.toNat = 0 := by omega
      rw [hzero, Nat.pow_zero, Nat.mul_one]
      calc q.den ≤ (q.den + q.num.toNat - 1) / q.num.toNat * q.num.toNat := hceil
        _ ≤ 10 ^ Nat.clog 10 ((q.den + q.num.toNat - 1) / q.num.toNat) * q.num.toNat :=
            Nat.mul_le_mul_right _ hclog
        _ ≤ 10 ^ (-e).toNat * q.num.toNat :=
            Nat.mul_le_mul_right _ (Nat.pow_le_pow_right (by decide) (by omega))
        _ = q.num.toNat * 10 ^ (-e).toNat := Nat.mul_comm _ _

theorem fit_cases {q : ℚ} {e : Int} {s : Nat} (h : fit q e = some s) :
    (s = lower q e ∨ s = lower q e + 1) ∧ round (scaled s e) = .finite q := by
  unfold fit at h
  simp only at h
  split_ifs at h with h1 h2
  · obtain rfl := Option.some.inj h
    exact ⟨.inl rfl, h1.1⟩
  · obtain rfl := Option.some.inj h
    exact ⟨.inr rfl, h2⟩

theorem shortest_pos {q : ℚ} (h : 0 < q) : 0 < (shortest q).1 := by
  unfold shortest
  cases hf : (List.range 17).findSome? fun (k : Nat) =>
      (fit q (magnitude q - (k + 1))).map fun s => (s, magnitude q - (k + 1)) with
  | none => exact lower_pos h (by omega)
  | some r =>
      obtain ⟨k, -, hk⟩ := List.exists_of_findSome?_eq_some hf
      obtain ⟨s, hs, rfl⟩ := Option.map_eq_some_iff.mp hk
      have hlower := lower_pos h (e := magnitude q - (k + 1)) (by omega)
      rcases (fit_cases hs).1 with rfl | rfl
      · exact hlower
      · exact Nat.succ_pos _

/-- `0` in the full form. -/
def zero : Numeral where
  whole := ['0']
  whole_ne := List.cons_ne_nil _ _
  whole_digits := fun c hc => by rw [List.mem_singleton.mp hc]; rfl
  whole_head := fun _ => rfl
  fraction_digits := no_digits
  exponent_form := no_exponent

/-- The numeral of a finite number. -/
def numeral (q : ℚ) : Numeral :=
  if h : 0 < |q| then
    layout (q < 0) (significant (shortest |q|).1 (shortest_pos h))
      ((shortest |q|).2 + (Nat.toDigits 10 (shortest |q|).1).length)
  else zero

/-- `String(number)`. -/
def toText : Number → Text
  | nan => "NaN".toList
  | infinity negative => (if negative then "-Infinity" else "Infinity").toList
  | finite q => (numeral q).text

/-! ## Naturals -/

theorem toDigits_mul_pow {s : Nat} (h : 0 < s) (k : Nat) :
    Nat.toDigits 10 (s * 10 ^ k) = Nat.toDigits 10 s ++ List.replicate k '0' := by
  induction k with
  | zero => rw [Nat.pow_zero, Nat.mul_one, List.replicate_zero, List.append_nil]
  | succ k ih =>
      have hstep := Nat.toDigits_append_toDigits (b := 10) (d := 0) (by decide)
        (Nat.mul_pos h (Nat.pow_pos (n := k) (show 0 < 10 by decide))) (by decide)
      have hpow : 10 * (s * 10 ^ k) + 0 = s * 10 ^ (k + 1) := by
        rw [Nat.add_zero, Nat.pow_succ, Nat.mul_comm 10, Nat.mul_assoc]
      rw [← hpow, ← hstep, ih, Nat.toDigits_zero, List.append_assoc, ← List.replicate_succ']

theorem strip_zeros (ds : Text) (k : Nat) : strip (ds ++ List.replicate k '0') = strip ds := by
  rw [strip, strip, List.reverse_append, List.reverse_replicate, List.dropWhile_append_of_pos]
  exact fun c hc => by simpa using List.eq_of_mem_replicate hc

/-- A number that a power of ten divides is met exactly. -/
theorem fit_exact {q : ℚ} {e : Int} (hs : scaled (lower q e) e = q) (hr : round q = .finite q) :
    fit q e = some (lower q e) := by
  have habove : scaled (lower q e) e < scaled (lower q e + 1) e := by
    have h1 : (0 : ℚ) < 10 ^ e.toNat := pow_pos (by decide) _
    have h2 : (0 : ℚ) < 10 ^ (-e).toNat := pow_pos (by decide) _
    have hcast : ((lower q e : Nat) : ℚ) < (lower q e + 1 : Nat) :=
      Nat.cast_lt.mpr (Nat.lt_succ_self _)
    exact div_lt_div_of_pos_right (mul_lt_mul_of_pos_right hcast h1) h2
  have hnear : q - q < scaled (lower q e + 1) e - q := by
    rw [sub_self]
    exact sub_pos.mpr (hs.symm.le.trans_lt habove)
  unfold fit
  simp only [hs]
  rw [if_pos ⟨hr, .inr (.inl hnear)⟩]

theorem lower_natCast (p : Nat) (e : Int) :
    lower (p : ℚ) e = p * 10 ^ (-e).toNat / 10 ^ e.toNat := by
  rw [lower, Rat.num_natCast, Rat.den_natCast, Nat.one_mul, Int.toNat_natCast]

/-- A natural below `2^52` takes its own digits, less the zeros at their end. -/
theorem fit_natCast {p s : Nat} (hp : 0 < p) (hlt : p < 2 ^ 52) {e : Int}
    (he : e ≤ Nat.log 10 p) (h : fit p e = some s) :
    strip (Nat.toDigits 10 s) = strip (Nat.toDigits 10 p) ∧
      e + (Nat.toDigits 10 s).length = (Nat.toDigits 10 p).length := by
  have hround : round (p : ℚ) = .finite p := round_natCast (by omega)
  rcases Int.le_total 0 e with hpos | hneg
  · obtain ⟨k, rfl⟩ := Int.eq_ofNat_of_zero_le hpos
    have hpow : 10 ^ k ≤ p :=
      (Nat.pow_le_pow_right (by decide) (by omega)).trans (Nat.pow_log_le_self 10 hp.ne')
    obtain ⟨hs, hfits⟩ := fit_cases h
    have hscaled : scaled s k = (s * 10 ^ k : Nat) := by
      simp [scaled]
    have hle : s * 10 ^ k ≤ p + 10 ^ k := by
      have hdiv := Nat.div_mul_le_self p (10 ^ k)
      rw [lower_natCast] at hs
      simp only [Int.toNat_natCast, Int.toNat_neg_natCast, Nat.pow_zero, Nat.mul_one] at hs
      rcases hs with rfl | rfl
      · exact hdiv.trans (Nat.le_add_right _ _)
      · rw [Nat.succ_mul]
        exact Nat.add_le_add_right hdiv _
    have heq : s * 10 ^ k = p := by
      rw [hscaled, round_natCast (by omega)] at hfits
      exact Nat.cast_injective (Number.finite.inj hfits)
    have hspos : 0 < s := Nat.pos_of_ne_zero (by rintro rfl; omega)
    rw [← heq, toDigits_mul_pow hspos, strip_zeros, List.length_append, List.length_replicate]
    exact ⟨rfl, by push_cast; omega⟩
  · obtain ⟨k, hk⟩ := Int.eq_ofNat_of_zero_le (Int.neg_nonneg_of_nonpos hneg)
    obtain rfl : e = -k := by omega
    have hlower : lower p (-k : Int) = p * 10 ^ k := by
      rw [lower_natCast]
      simp
    have hscaled : scaled (lower p (-k : Int)) (-k) = p := by
      rw [hlower]
      simp [scaled]
    rw [fit_exact hscaled hround, hlower] at h
    obtain rfl := Option.some.inj h
    rw [toDigits_mul_pow hp, strip_zeros, List.length_append, List.length_replicate]
    exact ⟨rfl, by push_cast; omega⟩

theorem magnitude_natCast {p : Nat} (hp : 0 < p) : magnitude (p : ℚ) = Nat.log 10 p + 1 := by
  rw [magnitude, Rat.num_natCast, Rat.den_natCast, Int.toNat_natCast,
    if_pos (show 1 ≤ p from hp), Nat.div_one]

theorem numeral_of_pos {q : ℚ} (h : 0 < q) :
    numeral q = layout false (significant (shortest q).1 (shortest_pos h))
      ((shortest q).2 + (Nat.toDigits 10 (shortest q).1).length) := by
  have habs : |q| = q := abs_of_pos h
  have hneg : decide (q < 0) = false := decide_eq_false (not_lt.mpr h.le)
  rw [numeral, dif_pos (habs.symm ▸ h), hneg]
  simp only [habs]

/-- Up to 21 places the digits are followed by zeros. -/
theorem layout_text (ds : Digits) {point : Int} (h : (ds.val.length : Int) ≤ point)
    (h21 : point ≤ 21) : (layout false ds point).text =
      ds.val ++ List.replicate (point.toNat - ds.val.length) '0' := by
  rw [layout, if_pos ⟨h, h21⟩]
  simp [Numeral.text, Numeral.sign, Numeral.fractionText, Numeral.exponentText]

/-- The digits of a natural below `2^52` stand in full. -/
theorem toText_natCast {p : Nat} (hlt : p < 2 ^ 52) :
    toText (.finite p) = Nat.toDigits 10 p := by
  rcases Nat.eq_zero_or_pos p with rfl | hp
  · rfl
  have hq : (0 : ℚ) < p := Nat.cast_pos.mpr hp
  have hlog : Nat.log 10 p < 17 := Nat.log_lt_of_lt_pow hp.ne' (by omega)
  obtain ⟨hdigits, hpoint⟩ : strip (Nat.toDigits 10 (shortest p).1) = strip (Nat.toDigits 10 p) ∧
      (shortest p).2 + (Nat.toDigits 10 (shortest p).1).length = (Nat.toDigits 10 p).length := by
    unfold shortest
    cases hf : (List.range 17).findSome? fun (k : Nat) =>
        (fit p (magnitude p - (k + 1))).map fun s => (s, magnitude p - (k + 1)) with
    | none =>
        have hnone := List.findSome?_eq_none_iff.mp hf (Nat.log 10 p) (List.mem_range.mpr hlog)
        have hzero : magnitude (p : ℚ) - (Nat.log 10 p + 1) = 0 := by
          rw [magnitude_natCast hp]
          omega
        have hlower : lower (p : ℚ) 0 = p := by simp [lower_natCast]
        rw [hzero, fit_exact (by rw [hlower]; simp [scaled]) (round_natCast (by omega))] at hnone
        cases hnone
    | some r =>
        obtain ⟨k, -, hk⟩ := List.exists_of_findSome?_eq_some hf
        obtain ⟨s, hs, rfl⟩ := Option.map_eq_some_iff.mp hk
        exact fit_natCast hp hlt (e := magnitude p - (k + 1))
          (by rw [magnitude_natCast hp]; omega) hs
  have hlen : (Nat.toDigits 10 p).length ≤ 21 :=
    (Nat.length_toDigits_le_iff (by decide) (by decide)).mpr (by omega)
  obtain ⟨k, hk⟩ := strip_append (Nat.toDigits 10 p)
  have hsum := congrArg List.length hk
  rw [List.length_append, List.length_replicate] at hsum
  have hval : (significant (shortest p).1 (shortest_pos hq)).val = strip (Nat.toDigits 10 p) :=
    hdigits
  rw [toText, numeral_of_pos hq, layout_text _ (by rw [hval]; omega) (by omega), hpoint, hval,
    Int.toNat_natCast, hsum, Nat.add_sub_cancel_left]
  exact hk.symm

end DshClashProxy.Js.Number
