import DshClashProxy.Js.Text
import Mathlib.Algebra.Order.Field.Rat
import Mathlib.Data.List.TakeWhile
import Mathlib.Tactic.FieldSimp
import Mathlib.Tactic.Ring

/-!
# Numbers

A number is NaN, an infinity, or the rational a finite double stands for; the two zeros
are one. `Number(text)` and `parseInt(text, 16)` read the text exactly and round once, to
the nearest double with ties to even. The bitwise operators first reduce modulo `2^32`.
-/
namespace DshClashProxy.Js

inductive Number where
  | nan
  | infinity (negative : Bool)
  | finite (q : ℚ)
  deriving DecidableEq

namespace Number

instance (n : Nat) : OfNat Number n := ⟨.finite n⟩

/-- The integer a number is, as `Number.isInteger` decides. -/
def toInt? : Number → Option Int
  | .finite q => if q.den = 1 then some q.num else none
  | _ => none

/-- `ToInt32`, which the bitwise operators apply to their operands. -/
def toInt32 : Number → BitVec 32
  | .finite q => BitVec.ofInt 32 (q.num.tdiv q.den)
  | _ => 0

def isNaN : Number → Bool
  | .nan => true
  | _ => false

/-- `a < b`. -/
def lt : Number → Number → Bool
  | .nan, _ => false
  | _, .nan => false
  | .infinity a, .infinity b => a && !b
  | .infinity a, .finite _ => a
  | .finite _, .infinity b => !b
  | .finite p, .finite q => p < q

/-- `a <= b`. -/
def le (a b : Number) : Bool := !a.isNaN && !b.isNaN && !lt b a

theorem lt_natCast (m n : Nat) : lt (.finite m) (.finite n) = true ↔ m < n := by
  have hcast : (m : ℚ) < n ↔ m < n := Nat.cast_lt
  rw [lt, decide_eq_true_eq, hcast]

theorem le_natCast (m n : Nat) : le (.finite m) (.finite n) = true ↔ m ≤ n := by
  rw [← not_lt, ← lt_natCast, Bool.not_eq_true]
  simp [le, isNaN]

/-- What is below a number is below all that are not. -/
theorem lt_of_lt_of_not_lt {a b c : Number} (hab : lt a b = true) (hcb : lt c b = false)
    (hc : c.isNaN = false) : lt a c = true := by
  cases b with
  | nan => cases a <;> cases hab
  | infinity n =>
      cases n with
      | true =>
          cases a with
          | nan => cases hab
          | infinity m => simp [lt] at hab
          | finite p => cases hab
      | false =>
          -- only the infinity itself is not below it
          cases c with
          | nan => cases hc
          | infinity m =>
              obtain rfl : m = false := by simpa [lt] using hcb
              exact hab
          | finite r => cases hcb
  | finite q =>
      cases c with
      | nan => cases hc
      | infinity m =>
          obtain rfl : m = false := hcb
          cases a with
          | nan => cases hab
          | infinity m => simpa [lt] using hab
          | finite p => rfl
      | finite r =>
          have hqr : q ≤ r := not_lt.mp (of_decide_eq_false hcb)
          cases a with
          | nan => cases hab
          | infinity m => exact hab
          | finite p => exact decide_eq_true ((of_decide_eq_true hab).trans_le hqr)

theorem isNaN_of_lt {a b : Number} (h : lt a b = true) : a.isNaN = false := by
  cases a with
  | nan => cases h
  | infinity n => rfl
  | finite q => rfl

theorem lt_asymm {a b : Number} (h : lt a b = true) : lt b a = false := by
  cases a with
  | nan => cases h
  | infinity m =>
      cases b with
      | nan => rfl
      | infinity n =>
          have hmn : m = true ∧ n = false := by simpa [lt] using h
          rw [hmn.1, hmn.2]
          rfl
      | finite q =>
          obtain rfl : m = true := h
          rfl
  | finite p =>
      cases b with
      | nan => rfl
      | infinity n => simpa [lt] using h
      | finite q => exact decide_eq_false (not_lt.mpr (of_decide_eq_true h).le)

theorem infinity_not_lt (b : Number) : lt (.infinity false) b = false := by
  cases b <;> rfl

/-! ## Rounding -/

/-- The quotient of two naturals rounded to the nearest, ties to even. -/
def roundQuotient (n d : Nat) : Nat :=
  let q := n / d
  let r := n % d
  if 2 * r < d then q else if d < 2 * r then q + 1 else if q % 2 = 0 then q else q + 1

/-- The largest `e` with `2^e ≤ n/d`, for positive `n` and `d`. -/
def floorLog (n d : Nat) : Int :=
  let e : Int := n.log2 - d.log2
  if d * 2 ^ e.toNat ≤ n * 2 ^ (-e).toNat then e else e - 1

/-- Finite doubles lie below two to this power. -/
def maxExponent : Nat := 1024

/-- The double nearest to a rational. -/
def round (q : ℚ) : Number :=
  let n := q.num.natAbs
  if n = 0 then .finite 0
  else
    let ulp := max (floorLog n q.den - 52) (-1074)
    let m := roundQuotient (n * 2 ^ (-ulp).toNat) (q.den * 2 ^ ulp.toNat)
    if 2 ^ maxExponent * 2 ^ (-ulp).toNat ≤ m * 2 ^ ulp.toNat then .infinity (q.num < 0)
    else .finite (q.num.sign * (m * 2 ^ ulp.toNat : Nat) / (2 ^ (-ulp).toNat : Nat))

theorem roundQuotient_mul (n d : Nat) (hd : 0 < d) : roundQuotient (n * d) d = n := by
  simp [roundQuotient, Nat.mul_div_cancel _ hd, hd]

/-- A natural below `2^53` is a double. -/
theorem round_natCast {n : Nat} (h : n < 2 ^ 53) : round (n : ℚ) = .finite n := by
  by_cases hn : n = 0
  · subst n
    simp [round]
  have hlog : n.log2 < 53 := (Nat.log2_lt hn).mpr h
  have hf : floorLog n 1 ≤ 52 := by
    have h1 : Nat.log2 1 = 0 := by decide
    simp only [floorLog, h1]
    split <;> omega
  obtain ⟨k, hk⟩ : ∃ k, (-max (floorLog n 1 - 52) (-1074)).toNat = k := ⟨_, rfl⟩
  have ht : (max (floorLog n 1 - 52) (-1074)).toNat = 0 := by omega
  have hq : roundQuotient (n * 2 ^ k) 1 = n * 2 ^ k := by
    simpa using roundQuotient_mul (n * 2 ^ k) 1 Nat.one_pos
  have hover : ¬ 2 ^ maxExponent * 2 ^ k ≤ n * 2 ^ k := by
    intro hle
    have hp : (2 : Nat) ^ 53 ≤ 2 ^ maxExponent := Nat.pow_le_pow_right (by decide) (by decide)
    exact absurd (Nat.le_of_mul_le_mul_right hle (Nat.two_pow_pos k)) (not_le.mpr (h.trans_le hp))
  have hs : Int.sign (n : Int) = 1 := Int.sign_eq_one_of_pos (by omega)
  simp only [round, Rat.num_natCast, Rat.den_natCast, Int.natAbs_natCast, if_neg hn, ht, hk,
    pow_zero, mul_one, hq, if_neg hover, hs]
  push_cast
  rw [one_mul, mul_div_assoc, div_self (pow_ne_zero k two_ne_zero), mul_one]

/-! ## Reading numerals -/

/-- The value of a digit in bases up to 16. -/
def digitValue (c : Char) : Nat :=
  let n := c.toNat
  if 48 ≤ n && n ≤ 57 then n - 48
  else if 97 ≤ n && n ≤ 102 then n - 87
  else if 65 ≤ n && n ≤ 70 then n - 55
  else 16

def isDigit (radix : Nat) (c : Char) : Bool := digitValue c < radix

def ofDigits (radix : Nat) (s : Text) : Nat := s.foldl (fun n c => n * radix + digitValue c) 0

def splitSign : Text → Bool × Text
  | '-' :: s => (true, s)
  | '+' :: s => (false, s)
  | s => (false, s)

def signed (negative : Bool) (q : ℚ) : ℚ := if negative then -q else q

/-- The exponent part of a decimal literal; nothing else may follow. -/
def readExponent : Text → Option Int
  | [] => some 0
  | c :: s =>
      let (negative, ds) := splitSign s
      if (c = 'e' || c = 'E') && !ds.isEmpty && ds.all (isDigit 10) then
        some (if negative then -(ofDigits 10 ds : Int) else ofDigits 10 ds)
      else none

/-- A decimal literal without its sign. -/
def readDecimal (s : Text) : Option ℚ :=
  let (whole, s) := s.span (isDigit 10)
  let (fraction, s) := match s with
    | '.' :: s => s.span (isDigit 10)
    | s => ([], s)
  if whole.isEmpty && fraction.isEmpty then none
  else (readExponent s).map fun (e : Int) =>
    (ofDigits 10 (whole ++ fraction) : ℚ) * 10 ^ (e - fraction.length).toNat /
      10 ^ (fraction.length - e).toNat

/-- A literal that starts with `0x`, `0o` or `0b`, in the radix the letter names. -/
def readRadix (radix : Nat) (s : Text) : Number :=
  if !s.isEmpty && s.all (isDigit radix) then round (ofDigits radix s) else .nan

/-- `Number(text)`. The empty text is zero. -/
def ofText (s : Text) : Number :=
  match Text.trim s with
  | [] => 0
  | '0' :: 'x' :: s => readRadix 16 s
  | '0' :: 'X' :: s => readRadix 16 s
  | '0' :: 'o' :: s => readRadix 8 s
  | '0' :: 'O' :: s => readRadix 8 s
  | '0' :: 'b' :: s => readRadix 2 s
  | '0' :: 'B' :: s => readRadix 2 s
  | s =>
      let (negative, s) := splitSign s
      if s = "Infinity".toList then .infinity negative
      else match readDecimal s with
        | some q => round (signed negative q)
        | none => .nan

/-- `parseInt(text, 16)`: the longest run of hex digits, whatever follows it. -/
def parseHex (s : Text) : Number :=
  let (negative, s) := splitSign (Text.trimStart s)
  let s := match s with
    | '0' :: 'x' :: s => s
    | '0' :: 'X' :: s => s
    | s => s
  let ds := s.takeWhile (isDigit 16)
  if ds.isEmpty then .nan else round (signed negative (ofDigits 16 ds))

theorem toNat_lt_of_isDigit {c : Char} (h : isDigit 16 c = true) : c.toNat < 128 := by
  simp only [isDigit, digitValue, Bool.and_eq_true, decide_eq_true_eq] at h
  split_ifs at h <;> omega

theorem isSpace_of_isDigit {c : Char} (h : isDigit 16 c = true) : Text.isSpace c = false := by
  rw [← Bool.not_eq_true]
  intro hs
  simp only [isDigit, digitValue, Bool.and_eq_true, decide_eq_true_eq] at h
  simp only [Text.isSpace, Bool.or_eq_true, Bool.and_eq_true, decide_eq_true_eq] at hs
  split_ifs at h <;> omega

theorem splitSign_of_isDigit {c : Char} (h : isDigit 16 c = true) (s : Text) :
    splitSign (c :: s) = (false, c :: s) := by
  unfold splitSign
  split
  · next heq => cases heq; exact absurd h (by decide)
  · next heq => cases heq; exact absurd h (by decide)
  · rfl

/-- The run of hex digits at the front of a text is read, and what follows is not. -/
theorem parseHex_append {s t : Text} (hne : s ≠ []) (h : ∀ c ∈ s, isDigit 16 c = true)
    (ht : ∀ c ∈ t.head?, isDigit 16 c = false ∧ c ≠ 'x' ∧ c ≠ 'X') :
    parseHex (s ++ t) = round (ofDigits 16 s) := by
  obtain ⟨c, s, rfl⟩ := List.exists_cons_of_ne_nil hne
  have hc := h c (by simp)
  -- neither a digit nor what ends the run is an `x`, so no prefix of the radix is cut off
  have hx : ∀ x s', c :: s ++ t = '0' :: x :: s' → x ≠ 'x' ∧ x ≠ 'X' := by
    intro x s' heq
    obtain ⟨-, heq⟩ := List.cons.inj heq
    cases s with
    | nil =>
        cases t with
        | nil => cases heq
        | cons d t =>
            obtain ⟨rfl, -⟩ := List.cons.inj heq
            exact (ht d rfl).2
    | cons d s =>
        obtain ⟨rfl, -⟩ := List.cons.inj heq
        have hd := h d (by simp)
        constructor
        · rintro rfl
          exact absurd hd (by decide)
        · rintro rfl
          exact absurd hd (by decide)
  have hstop : t.takeWhile (isDigit 16) = [] := by
    cases t with
    | nil => rfl
    | cons d t => exact List.takeWhile_cons_of_neg (by simp [(ht d rfl).1])
  have htake : (c :: s ++ t).takeWhile (isDigit 16) = c :: s := by
    rw [List.takeWhile_append_of_pos h, hstop, List.append_nil]
  unfold parseHex
  rw [List.cons_append, Text.trimStart_cons (isSpace_of_isDigit hc), splitSign_of_isDigit hc]
  rw [List.cons_append] at hx htake
  simp only
  split
  · next heq => exact absurd rfl (hx _ _ heq).1
  · next heq => exact absurd rfl (hx _ _ heq).2
  · rw [htake]
    rfl

/-- A text of hex digits alone is read whole. -/
theorem parseHex_of_digits {s : Text} (hne : s ≠ []) (h : ∀ c ∈ s, isDigit 16 c = true) :
    parseHex s = round (ofDigits 16 s) := by
  have := parseHex_append (t := []) hne h (by simp)
  rwa [List.append_nil] at this

theorem digitValue_lt {radix : Nat} {c : Char} (h : isDigit radix c = true) :
    digitValue c < radix := of_decide_eq_true h

/-- A text of `k` digits stands for less than the `k`-th power of the radix. -/
theorem ofDigits_lt {radix : Nat} {s : Text} (h : ∀ c ∈ s, isDigit radix c = true) :
    ofDigits radix s < radix ^ s.length := by
  suffices hgo : ∀ n m, n < m →
      s.foldl (fun n c => n * radix + digitValue c) n < m * radix ^ s.length by
    simpa [ofDigits] using hgo 0 1 Nat.one_pos
  induction s with
  | nil => simp
  | cons c s ih =>
      intro n m hlt
      have hc := digitValue_lt (h c (by simp))
      have hstep : n * radix + digitValue c < m * radix := by
        calc n * radix + digitValue c < n * radix + radix := Nat.add_lt_add_left hc _
          _ = (n + 1) * radix := (Nat.succ_mul n radix).symm
          _ ≤ m * radix := Nat.mul_le_mul_right radix hlt
      have := ih (fun d hd => h d (List.mem_cons_of_mem _ hd)) _ _ hstep
      rwa [List.length_cons, Nat.pow_succ', ← Nat.mul_assoc]

theorem isSpace_of_isDecimal {c : Char} (h : isDigit 10 c = true) : Text.isSpace c = false := by
  apply isSpace_of_isDigit
  have := digitValue_lt h
  exact decide_eq_true (by omega)

/-- A text of decimal digits is the number they make up, rounded. -/
theorem ofText_digits {s : Text} (hne : s ≠ []) (h : ∀ c ∈ s, isDigit 10 c = true) :
    ofText s = round (ofDigits 10 s) := by
  have htrim : Text.trim s = s := Text.trim_of_no_space fun c hc => isSpace_of_isDecimal (h c hc)
  have hspan : s.span (isDigit 10) = (s, []) := by
    rw [List.span_eq_takeWhile_dropWhile, Prod.mk.injEq]
    have ht : (s ++ []).takeWhile (isDigit 10) = s ++ [].takeWhile (isDigit 10) :=
      List.takeWhile_append_of_pos h
    rw [List.takeWhile_nil, List.append_nil] at ht
    exact ⟨ht, List.dropWhile_eq_nil_iff.mpr h⟩
  have hdecimal : readDecimal s = some (ofDigits 10 s : ℚ) := by
    have he : s.isEmpty = false := by simpa using hne
    simp only [readDecimal, hspan, he, Bool.false_and, Bool.false_eq_true, if_false, readExponent,
      Option.map_some, List.append_nil, List.length_nil]
    simp
  obtain ⟨c, t, rfl⟩ := List.exists_cons_of_ne_nil hne
  have hradix : ∀ x s', c :: t = '0' :: x :: s' → isDigit 10 x = true := by
    intro x s' heq
    rw [heq] at h
    exact h x (by simp)
  have hsign : splitSign (c :: t) = (false, c :: t) := by
    have := digitValue_lt (h c (by simp))
    exact splitSign_of_isDigit (decide_eq_true (by omega)) t
  have hinf : c :: t ≠ "Infinity".toList := by
    intro heq
    have hi : c = 'I' := (List.cons.inj heq).1
    exact absurd (h c (by simp)) (by rw [hi]; decide)
  rw [ofText, htrim]
  split
  · next heq => cases heq
  · next heq => exact absurd (hradix _ _ heq) (by decide)
  · next heq => exact absurd (hradix _ _ heq) (by decide)
  · next heq => exact absurd (hradix _ _ heq) (by decide)
  · next heq => exact absurd (hradix _ _ heq) (by decide)
  · next heq => exact absurd (hradix _ _ heq) (by decide)
  · next heq => exact absurd (hradix _ _ heq) (by decide)
  · simp only [hsign, if_neg hinf, hdecimal, signed]
    rfl

/-- A text of few decimal digits is the number they make up. -/
theorem ofText_of_digits {s : Text} (hne : s ≠ []) (h : ∀ c ∈ s, isDigit 10 c = true)
    (hl : s.length ≤ 15) : ofText s = .finite (ofDigits 10 s) := by
  have hlt : ofDigits 10 s < 2 ^ 53 := by
    calc ofDigits 10 s < 10 ^ s.length := ofDigits_lt h
      _ ≤ 10 ^ 15 := Nat.pow_le_pow_right (by decide) hl
      _ < 2 ^ 53 := by decide
  rw [ofText_digits hne h, round_natCast hlt]

example : ofText " 0x1F ".toList = 31 ∧ ofText "1e2".toList = 100 ∧ ofText [] = 0 ∧
    ofText "1.5.".toList = .nan := by decide +kernel

end Number
end DshClashProxy.Js
