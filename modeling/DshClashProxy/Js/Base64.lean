import DshClashProxy.Go.Base64

/-!
# Base64 in buffers

`Buffer.from(text, "base64")` takes the digits of both alphabets up to the first `=`, passes
over all other characters, and drops the bits that do not fill a byte. It undoes
`toString("base64")`.
-/
namespace DshClashProxy.Js.Bytes

open Go.Base64 (digitValue digitValue_base64Digit base64Digit_ne ofNat_eq)

def base64Value (c : Char) : Option Nat :=
  if c = '-' then some 62 else if c = '_' then some 63 else digitValue c

/-- The values of the digits up to the first pad. -/
def base64Values : Text → List Nat
  | [] => []
  | c :: rest =>
      if c = '=' then []
      else
        match base64Value c with
        | some value => value :: base64Values rest
        | none => base64Values rest

/-- The bytes that groups of four values make up. -/
def ofBase64Values : List Nat → Bytes
  | a :: b :: c :: d :: rest =>
      let n := ((a * 64 + b) * 64 + c) * 64 + d
      UInt8.ofNat (n / 65536) :: UInt8.ofNat (n / 256) :: UInt8.ofNat n :: ofBase64Values rest
  | [a, b, c] =>
      let n := (a * 64 + b) * 64 + c
      [UInt8.ofNat (n / 1024), UInt8.ofNat (n / 4)]
  | [a, b] => [UInt8.ofNat ((a * 64 + b) / 16)]
  | _ => []

/-- `Buffer.from(text, "base64")`. -/
def fromBase64 (s : Text) : Bytes := ofBase64Values (base64Values s)

example : fromBase64 "_-8 =x".toList = [0xff, 0xef] := by decide +kernel

theorem base64Value_base64Digit : ∀ n < 64, base64Value (base64Digit n) = some n := by
  decide +kernel

theorem base64Values_cons {n : Nat} (h : n < 64) (s : Text) :
    base64Values (base64Digit n :: s) = n :: base64Values s := by
  rw [base64Values, if_neg (base64Digit_ne n h).2.2, base64Value_base64Digit n h]

/-- What is encoded is decoded. -/
theorem fromBase64_base64 (b : Bytes) : fromBase64 (base64 b) = b := by
  unfold fromBase64
  induction b using base64.induct with
  | case1 => rfl
  | case2 a =>
      have ha := UInt8.toNat_lt a
      rw [base64, base64Values_cons (by omega), base64Values_cons (by omega)]
      change [UInt8.ofNat _] = _
      rw [ofNat_eq (a := a) (by omega)]
  | case3 a b =>
      have ha := UInt8.toNat_lt a
      have hb := UInt8.toNat_lt b
      rw [base64, base64Values_cons (by omega), base64Values_cons (by omega),
        base64Values_cons (by omega)]
      change [UInt8.ofNat _, UInt8.ofNat _] = _
      rw [ofNat_eq (a := a) (by omega), ofNat_eq (a := b) (by omega)]
  | case4 a b c rest ih =>
      have ha := UInt8.toNat_lt a
      have hb := UInt8.toNat_lt b
      have hc := UInt8.toNat_lt c
      rw [base64, base64Values_cons (by omega), base64Values_cons (by omega),
        base64Values_cons (by omega), base64Values_cons (by omega), ofBase64Values, ih,
        ofNat_eq (a := a) (by omega), ofNat_eq (a := b) (by omega), ofNat_eq (a := c) (by omega)]

/-- The encoding is made of digits and pads. -/
theorem mem_base64 {b : Bytes} {c : Char} (h : c ∈ base64 b) :
    c = '=' ∨ ∃ n < 64, c = base64Digit n := by
  induction b using base64.induct with
  | case1 => cases h
  | case2 a =>
      have ha := UInt8.toNat_lt a
      simp only [base64, List.mem_cons, List.not_mem_nil, or_false] at h
      rcases h with rfl | rfl | rfl | rfl
      · exact .inr ⟨_, by omega, rfl⟩
      · exact .inr ⟨_, by omega, rfl⟩
      · exact .inl rfl
      · exact .inl rfl
  | case3 a b =>
      have ha := UInt8.toNat_lt a
      have hb := UInt8.toNat_lt b
      simp only [base64, List.mem_cons, List.not_mem_nil, or_false] at h
      rcases h with rfl | rfl | rfl | rfl
      · exact .inr ⟨_, by omega, rfl⟩
      · exact .inr ⟨_, by omega, rfl⟩
      · exact .inr ⟨_, by omega, rfl⟩
      · exact .inl rfl
  | case4 a b c rest ih =>
      have ha := UInt8.toNat_lt a
      have hb := UInt8.toNat_lt b
      have hc := UInt8.toNat_lt c
      simp only [base64, List.mem_cons] at h
      rcases h with rfl | rfl | rfl | rfl | h
      · exact .inr ⟨_, by omega, rfl⟩
      · exact .inr ⟨_, by omega, rfl⟩
      · exact .inr ⟨_, by omega, rfl⟩
      · exact .inr ⟨_, by omega, rfl⟩
      · exact ih h

end DshClashProxy.Js.Bytes
