import DshClashProxy.Js.Buffer

/-!
# Standard base64

`base64.StdEncoding.DecodeString` takes whole quanta of four digits, the last of which may be
padded, and passes over line breaks. It undoes `toString("base64")`.
-/
namespace DshClashProxy.Go.Base64

open Js

def digitValue (c : Char) : Option Nat :=
  if 'A' ≤ c ∧ c ≤ 'Z' then some (c.toNat - 65)
  else if 'a' ≤ c ∧ c ≤ 'z' then some (c.toNat - 71)
  else if c.isDigit then some (c.toNat + 4)
  else if c = '+' then some 62
  else if c = '/' then some 63
  else none

/-- The number that the digits stand for. -/
def quantum : Text → Option Nat
  | [] => some 0
  | c :: rest => do
      let value ← digitValue c
      return value * 64 ^ rest.length + (← quantum rest)

def decodeQuanta : Text → Option Bytes
  | [] => some []
  | [a, b, '=', '='] => (quantum [a, b]).map fun n => [UInt8.ofNat (n / 16)]
  | [a, b, c, '='] => (quantum [a, b, c]).map fun n =>
      [UInt8.ofNat (n / 1024), UInt8.ofNat (n / 4)]
  | a :: b :: c :: d :: rest =>
      match quantum [a, b, c, d] with
      | none => none
      | some n => (decodeQuanta rest).map fun b =>
          UInt8.ofNat (n / 65536) :: UInt8.ofNat (n / 256) :: UInt8.ofNat n :: b
  | _ => none

def decodeString (s : Text) : Option Bytes :=
  decodeQuanta (s.filter fun c => c ≠ '\r' && c ≠ '\n')

theorem digitValue_base64Digit : ∀ n < 64, digitValue (Bytes.base64Digit n) = some n := by
  decide +kernel

theorem base64Digit_ne : ∀ n < 64, Bytes.base64Digit n ≠ '\r' ∧ Bytes.base64Digit n ≠ '\n' ∧
    Bytes.base64Digit n ≠ '=' := by
  decide +kernel

theorem quantum_cons {n : Nat} (h : n < 64) {s : Text} {m : Nat} (hs : quantum s = some m) :
    quantum (Bytes.base64Digit n :: s) = some (n * 64 ^ s.length + m) := by
  rw [quantum, digitValue_base64Digit n h, hs]
  rfl

theorem base64_no_break (b : Bytes) : ∀ c ∈ Bytes.base64 b, c ≠ '\r' ∧ c ≠ '\n' := by
  have hdigit : ∀ n < 64, Bytes.base64Digit n ≠ '\r' ∧ Bytes.base64Digit n ≠ '\n' :=
    fun n hn => ⟨(base64Digit_ne n hn).1, (base64Digit_ne n hn).2.1⟩
  have hpad : '=' ≠ '\r' ∧ '=' ≠ '\n' := by decide
  induction b using Bytes.base64.induct with
  | case1 => exact nofun
  | case2 a =>
      have := UInt8.toNat_lt a
      simp only [Bytes.base64, List.forall_mem_cons]
      exact ⟨hdigit _ (by omega), hdigit _ (by omega), hpad, hpad, nofun⟩
  | case3 a b =>
      have := UInt8.toNat_lt a
      have := UInt8.toNat_lt b
      simp only [Bytes.base64, List.forall_mem_cons]
      exact ⟨hdigit _ (by omega), hdigit _ (by omega), hdigit _ (by omega), hpad, nofun⟩
  | case4 a b c rest ih =>
      have := UInt8.toNat_lt a
      have := UInt8.toNat_lt b
      have := UInt8.toNat_lt c
      simp only [Bytes.base64, List.forall_mem_cons]
      exact ⟨hdigit _ (by omega), hdigit _ (by omega), hdigit _ (by omega), hdigit _ (by omega), ih⟩

/-- Three digits and a pad. -/
theorem decodeQuanta_three {a b c : Char} (hc : c ≠ '=') :
    decodeQuanta [a, b, c, '='] = (quantum [a, b, c]).map fun n =>
      [UInt8.ofNat (n / 1024), UInt8.ofNat (n / 4)] := by
  rw [decodeQuanta.eq_def]
  split
  · next h => cases h
  · next h => cases h; exact absurd rfl hc
  · next h => cases h; rfl
  · next hpad h => cases h; exact (hpad rfl rfl).elim
  · next h => exact absurd rfl (h _ _ _ _ _)

theorem decodeQuanta_four {a b c d : Char} (hd : d ≠ '=') (rest : Text) {n : Nat}
    (hn : quantum [a, b, c, d] = some n) :
    decodeQuanta (a :: b :: c :: d :: rest) = (decodeQuanta rest).map fun b =>
      UInt8.ofNat (n / 65536) :: UInt8.ofNat (n / 256) :: UInt8.ofNat n :: b := by
  rw [decodeQuanta.eq_def]
  split
  · next h => cases h
  · next h => cases h; exact absurd rfl hd
  · next h => cases h; exact absurd rfl hd
  · next h => cases h; rw [hn]
  · next h => exact absurd rfl (h _ _ _ _ _)

theorem quantum_two {m : Nat} (h : m < 64 ^ 2) :
    quantum [Bytes.base64Digit (m / 64), Bytes.base64Digit (m % 64)] = some m := by
  rw [quantum_cons (by omega) (quantum_cons (by omega) (m := 0) rfl)]
  simp only [List.length_cons, List.length_nil, Option.some.injEq]
  omega

theorem quantum_three {m : Nat} (h : m < 64 ^ 3) :
    quantum [Bytes.base64Digit (m / 4096), Bytes.base64Digit (m / 64 % 64),
      Bytes.base64Digit (m % 64)] = some m := by
  rw [quantum_cons (by omega) (quantum_cons (by omega) (quantum_cons (by omega) (m := 0) rfl))]
  simp only [List.length_cons, List.length_nil, Option.some.injEq]
  omega

theorem quantum_four {m : Nat} (h : m < 64 ^ 4) :
    quantum [Bytes.base64Digit (m / 262144), Bytes.base64Digit (m / 4096 % 64),
      Bytes.base64Digit (m / 64 % 64), Bytes.base64Digit (m % 64)] = some m := by
  rw [quantum_cons (by omega) (quantum_cons (by omega) (quantum_cons (by omega)
    (quantum_cons (by omega) (m := 0) rfl)))]
  simp only [List.length_cons, List.length_nil, Option.some.injEq]
  omega

theorem ofNat_eq {n : Nat} {a : UInt8} (h : n % 256 = a.toNat) : UInt8.ofNat n = a :=
  UInt8.toNat_inj.mp (by rw [UInt8.toNat_ofNat']; exact h)

theorem decodeQuanta_base64 (b : Bytes) : decodeQuanta (Bytes.base64 b) = some b := by
  induction b using Bytes.base64.induct with
  | case1 => rfl
  | case2 a =>
      have ha := UInt8.toNat_lt a
      rw [Bytes.base64]
      generalize hm : a.toNat * 16 = m
      have hq := quantum_two (m := m) (by omega)
      change (quantum [_, _]).map _ = _
      rw [hq, Option.map_some, ofNat_eq (a := a) (by omega)]
  | case3 a b =>
      have ha := UInt8.toNat_lt a
      have hb := UInt8.toNat_lt b
      rw [Bytes.base64]
      generalize hm : (a.toNat * 256 + b.toNat) * 4 = m
      rw [decodeQuanta_three (base64Digit_ne (m % 64) (by omega)).2.2,
        quantum_three (by omega), Option.map_some, ofNat_eq (a := a) (by omega),
        ofNat_eq (a := b) (by omega)]
  | case4 a b c rest ih =>
      have ha := UInt8.toNat_lt a
      have hb := UInt8.toNat_lt b
      have hc := UInt8.toNat_lt c
      rw [Bytes.base64]
      generalize hm : (a.toNat * 256 + b.toNat) * 256 + c.toNat = m
      rw [decodeQuanta_four (base64Digit_ne (m % 64) (by omega)).2.2 _ (quantum_four (by omega)),
        ih, Option.map_some, ofNat_eq (a := a) (by omega), ofNat_eq (a := b) (by omega),
        ofNat_eq (a := c) (by omega)]

/-- What is encoded is decoded. -/
theorem decodeString_base64 (b : Bytes) : decodeString (Bytes.base64 b) = some b := by
  have hfilter : (Bytes.base64 b).filter (fun c => c ≠ '\r' && c ≠ '\n') = Bytes.base64 b :=
    List.filter_eq_self.mpr fun c hc => by simpa using base64_no_break b c hc
  rw [decodeString, hfilter, decodeQuanta_base64]

end DshClashProxy.Go.Base64
