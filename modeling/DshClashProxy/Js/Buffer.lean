import DshClashProxy.Js.Text
import Mathlib.Algebra.Group.Nat.Defs

/-!
# Buffers

A buffer is the list of its bytes; the encodings are those of `Buffer.from` and
`toString`. Decoding UTF-8 replaces each maximal ill-formed part by U+FFFD.
-/
namespace DshClashProxy.Js

abbrev Bytes := List UInt8

namespace Bytes

/-- `subarray(start, stop)`. -/
def subarray (b : Bytes) (start stop : Nat) : Bytes := (b.take stop).drop start

theorem subarray_append (a b c : Bytes) (start : Nat) {stop : Nat} (h : stop ≤ b.length) :
    subarray (a ++ b ++ c) (a.length + start) (a.length + stop) = b.subarray start stop := by
  rw [subarray, subarray, List.append_assoc, List.take_length_add_append,
    List.take_append_of_le_length h, List.drop_length_add_append]

/-- The place an index of `subarray` stands for; a negative index counts from the end. -/
def place (b : Bytes) (index : Int) : Nat :=
  if index < 0 then (b.length + index).toNat else index.toNat

/-- `readUInt16BE(offset)`, which throws when the two bytes are not there. -/
def readUInt16BE (b : Bytes) (offset : Nat) : Option Nat :=
  match b.drop offset with
  | hi :: lo :: _ => some (hi.toNat * 256 + lo.toNat)
  | _ => none

/-- The two bytes `writeUInt16BE` stores, for a value it accepts. -/
def uint16BE (n : Nat) : Bytes := [UInt8.ofNat (n / 256), UInt8.ofNat n]

/-- The `k` low bytes of a number, lowest first. -/
def uintLE : Nat → Nat → Bytes
  | 0, _ => []
  | k + 1, n => UInt8.ofNat n :: uintLE k (n / 256)

theorem length_uintLE (k n : Nat) : (uintLE k n).length = k := by
  induction k generalizing n with
  | zero => rfl
  | succ k ih => rw [uintLE, List.length_cons, ih]

/-- Numbers that fit their bytes differ in them. -/
theorem uintLE_injective {k m n : Nat} (hm : m < 256 ^ k) (hn : n < 256 ^ k)
    (h : uintLE k m = uintLE k n) : m = n := by
  induction k generalizing m n with
  | zero =>
      rw [pow_zero] at hm hn
      omega
  | succ k ih =>
      rw [uintLE, uintLE, List.cons.injEq] at h
      obtain ⟨hlow, hhigh⟩ := h
      rw [pow_succ] at hm hn
      have hlow' : m % 256 = n % 256 := by
        have := congrArg UInt8.toNat hlow
        rwa [UInt8.toNat_ofNat', UInt8.toNat_ofNat'] at this
      have := ih (by omega) (by omega) hhigh
      omega

/-- The `k` low bytes of a number, highest first. -/
def uintBE (k n : Nat) : Bytes := (uintLE k n).reverse

/-- The number that some bytes make up, the highest first. -/
def natBE (b : Bytes) : Nat := b.foldl (fun n c => n * 256 + c.toNat) 0

theorem length_uintBE (k n : Nat) : (uintBE k n).length = k := by
  rw [uintBE, List.length_reverse, length_uintLE]

theorem natBE_uintBE {k n : Nat} (h : n < 256 ^ k) : natBE (uintBE k n) = n := by
  rw [natBE, uintBE, List.foldl_reverse]
  induction k generalizing n with
  | zero =>
      rw [pow_zero] at h
      exact (Nat.lt_one_iff.mp h).symm
  | succ k ih =>
      rw [pow_succ] at h
      rw [uintLE, List.foldr_cons, ih (by omega), UInt8.toNat_ofNat']
      omega

theorem uint16BE_toNat (hi lo : UInt8) :
    uint16BE (hi.toNat * 256 + lo.toNat) = [hi, lo] := by
  have hlo := lo.toNat_lt
  have h1 : (hi.toNat * 256 + lo.toNat) / 256 = hi.toNat := by omega
  have h2 : UInt8.ofNat (hi.toNat * 256 + lo.toNat) = lo := by
    apply UInt8.toNat_inj.mp
    rw [UInt8.toNat_ofNat']
    omega
  rw [uint16BE, h1, h2, UInt8.ofNat_toNat]

theorem natBE_uint16BE {n : Nat} (h : n < 65536) : natBE (uint16BE n) = n := by
  change (0 * 256 + (UInt8.ofNat (n / 256)).toNat) * 256 + (UInt8.ofNat n).toNat = n
  rw [UInt8.toNat_ofNat', UInt8.toNat_ofNat']
  omega

theorem natBE_concat (b : Bytes) (c : UInt8) : natBE (b ++ [c]) = natBE b * 256 + c.toNat := by
  rw [natBE, List.foldl_append]
  rfl

theorem natBE_lt (b : Bytes) : natBE b < 256 ^ b.length := by
  induction b using List.reverseRecOn with
  | nil => decide
  | append_singleton b c ih =>
      have hc := c.toNat_lt
      rw [natBE_concat, List.length_append, List.length_singleton, pow_succ]
      omega

/-- Bytes are those of the number they make up. -/
theorem uintBE_natBE (b : Bytes) : uintBE b.length (natBE b) = b := by
  induction b using List.reverseRecOn with
  | nil => rfl
  | append_singleton b c ih =>
      have hc := c.toNat_lt
      have hlow : UInt8.ofNat (natBE b * 256 + c.toNat) = c := by
        apply UInt8.toNat_inj.mp
        rw [UInt8.toNat_ofNat']
        omega
      have hhigh : (natBE b * 256 + c.toNat) / 256 = natBE b := by omega
      rw [uintBE] at ih ⊢
      rw [natBE_concat, List.length_append, List.length_singleton, uintLE, List.reverse_cons, hhigh,
        ih, hlow]

theorem readUInt16BE_append (a b : Bytes) {n : Nat} (h : n < 65536) :
    readUInt16BE (a ++ uint16BE n ++ b) a.length = some n := by
  have hd : (a ++ uint16BE n ++ b).drop a.length = uint16BE n ++ b := by
    rw [List.append_assoc, List.drop_left]
  rw [readUInt16BE, hd]
  simp only [uint16BE, List.cons_append, List.nil_append, UInt8.toNat_ofNat', Option.some.injEq]
  omega

/-- A read that succeeds has its two bytes at the offset. -/
theorem readUInt16BE_inv {b : Bytes} {offset n : Nat} (h : readUInt16BE b offset = some n) :
    n < 65536 ∧ ∃ front rest, b = front ++ uint16BE n ++ rest ∧ front.length = offset := by
  unfold readUInt16BE at h
  match hd : b.drop offset with
  | [] => simp only [hd, reduceCtorEq] at h
  | [_] => simp only [hd, reduceCtorEq] at h
  | hi :: lo :: rest =>
      simp only [hd, Option.some.injEq] at h
      have hhi := hi.toNat_lt
      have hlo := lo.toNat_lt
      have hlt : offset < b.length := by
        have := congrArg List.length hd
        rw [List.length_drop, List.length_cons] at this
        omega
      refine ⟨by omega, b.take offset, rest, ?_, List.length_take_of_le hlt.le⟩
      rw [← h, uint16BE_toNat, List.append_assoc]
      change b = b.take offset ++ (hi :: lo :: rest)
      rw [← hd, List.take_append_drop]

theorem readUInt16BE_getD_lt (b : Bytes) (offset : Nat) :
    (readUInt16BE b offset).getD 0 < 65536 := by
  cases hn : readUInt16BE b offset with
  | none => decide
  | some n => exact (readUInt16BE_inv hn).1

theorem readUInt16BE_uint16BE {n : Nat} (h : n < 65536) : readUInt16BE (uint16BE n) 0 = some n := by
  have := readUInt16BE_append [] [] h
  rwa [List.nil_append, List.append_nil] at this

theorem readUInt16BE_of_length {b : Bytes} {offset : Nat} (h : b.length < offset + 2) :
    readUInt16BE b offset = none := by
  have hl : (b.drop offset).length < 2 := by rw [List.length_drop]; omega
  unfold readUInt16BE
  match hd : b.drop offset with
  | [] => rfl
  | [_] => rfl
  | _ :: _ :: _ => simp only [hd, List.length_cons] at hl; omega

/-- Where a pattern first occurs. -/
def indexOf (pattern : Bytes) : Bytes → Option Nat
  | [] => if pattern.isEmpty then some 0 else none
  | c :: rest =>
      if pattern.isPrefixOf (c :: rest) then some 0
      else (indexOf pattern rest).map (· + 1)

theorem indexOf_eq_none {pattern b : Bytes} (hp : pattern ≠ []) :
    indexOf pattern b = none ↔ ¬ pattern <:+: b := by
  induction b with
  | nil => simp [indexOf, hp]
  | cons c rest ih =>
      rw [indexOf, List.infix_cons_iff]
      by_cases hpre : pattern.isPrefixOf (c :: rest) = true
      · have := List.isPrefixOf_iff_prefix.mp hpre
        simp [hpre, this]
      · have hn : ¬ pattern <+: c :: rest := fun h => hpre (List.isPrefixOf_iff_prefix.mpr h)
        simp [hpre, hn, ih]

/-- The first occurrence is where the pattern ends the shortest prefix that has it. -/
theorem indexOf_append {pattern a b : Bytes} (hp : pattern ≠ [])
    (h : ¬ pattern <:+: (a ++ pattern).dropLast) :
    indexOf pattern (a ++ pattern ++ b) = some a.length := by
  induction a with
  | nil =>
      obtain ⟨c, rest, rfl⟩ := List.exists_cons_of_ne_nil hp
      have hpre : (c :: rest).isPrefixOf (c :: (rest ++ b)) = true :=
        List.isPrefixOf_iff_prefix.mpr (List.prefix_append (c :: rest) b)
      simp only [List.nil_append, List.cons_append, indexOf, hpre, if_true, List.length_nil]
  | cons c a ih =>
      have hpre : pattern.isPrefixOf (c :: (a ++ pattern ++ b)) = false := by
        rw [← Bool.not_eq_true, List.isPrefixOf_iff_prefix]
        exact Text.not_prefix_of_not_infix h b
      simp only [List.cons_append, indexOf, hpre, Bool.false_eq_true, if_false,
        ih (Text.not_infix_tail hp h),
        Option.map_some, List.length_cons]

/-! ## Encodings -/

/-- `toString("latin1")`. -/
def latin1 (b : Bytes) : Text := b.map fun c => Char.ofNat c.toNat

theorem toNat_latin1 (b : UInt8) : (Char.ofNat b.toNat).toNat = b.toNat := by
  have hb := b.toNat_lt
  rw [Char.ofNat, dif_pos (Or.inl (by omega))]
  rfl

theorem latin1_injective {a b : Bytes} (h : latin1 a = latin1 b) : a = b := by
  refine List.map_injective_iff.mpr (fun x y hxy => ?_) h
  have hn := congrArg Char.toNat hxy
  rw [toNat_latin1, toNat_latin1] at hn
  exact UInt8.toNat_inj.mp hn

theorem latin1_append (a b : Bytes) : latin1 (a ++ b) = latin1 a ++ latin1 b :=
  List.map_append

/-- `Buffer.from(text)`. -/
def utf8Encode (s : Text) : Bytes := s.flatMap String.utf8EncodeChar

/-- `toString("hex")`. -/
def hex (b : Bytes) : Text :=
  b.flatMap fun c => [Nat.digitChar (c.toNat / 16), Nat.digitChar (c.toNat % 16)]

def base64Digit (n : Nat) : Char :=
  ("ABCDEFGHIJKLMNOPQRSTUVWXYZabcdefghijklmnopqrstuvwxyz0123456789+/".toList)[n]?.getD '='

/-- `toString("base64")`. -/
def base64 : Bytes → Text
  | [] => []
  | [a] =>
      let n := a.toNat * 16
      [base64Digit (n / 64), base64Digit (n % 64), '=', '=']
  | [a, b] =>
      let n := (a.toNat * 256 + b.toNat) * 4
      [base64Digit (n / 4096), base64Digit (n / 64 % 64), base64Digit (n % 64), '=']
  | a :: b :: c :: rest =>
      let n := (a.toNat * 256 + b.toNat) * 256 + c.toNat
      base64Digit (n / 262144) :: base64Digit (n / 4096 % 64) :: base64Digit (n / 64 % 64) ::
        base64Digit (n % 64) :: base64 rest

example : base64 (utf8Encode "user:pw".toList) = "dXNlcjpwdw==".toList := by decide +kernel

/-- A partly read UTF-8 sequence: the continuation bytes still wanted, the bits so far and
the range of the next byte. -/
structure Utf8 where
  wanted : Nat := 0
  bits : Nat := 0
  lower : Nat := 0x80
  upper : Nat := 0xbf

def Utf8.lead (b : Nat) : Text × Utf8 :=
  if b < 0x80 then ([Char.ofNat b], {})
  else if 0xc2 ≤ b && b ≤ 0xdf then ([], { wanted := 1, bits := b % 32 })
  else if 0xe0 ≤ b && b ≤ 0xef then
    ([], { wanted := 2, bits := b % 16, lower := if b = 0xe0 then 0xa0 else 0x80,
           upper := if b = 0xed then 0x9f else 0xbf })
  else if 0xf0 ≤ b && b ≤ 0xf4 then
    ([], { wanted := 3, bits := b % 8, lower := if b = 0xf0 then 0x90 else 0x80,
           upper := if b = 0xf4 then 0x8f else 0xbf })
  else (['\ufffd'], {})

def Utf8.next (u : Utf8) (b : Nat) : Text × Utf8 :=
  if u.wanted = 0 then lead b
  else if u.lower ≤ b && b ≤ u.upper then
    let bits := u.bits * 64 + b % 64
    if u.wanted = 1 then ([Char.ofNat bits], {})
    else ([], { wanted := u.wanted - 1, bits })
  else
    -- the byte ends the ill-formed part and is read again as a first byte
    let (out, u) := lead b
    ('\ufffd' :: out, u)

def utf8DecodeFrom : Utf8 → Bytes → Text
  | u, [] => if u.wanted = 0 then [] else ['\ufffd']
  | u, b :: rest => (u.next b.toNat).1 ++ utf8DecodeFrom (u.next b.toNat).2 rest

/-- `toString("utf8")`. -/
def utf8Decode (b : Bytes) : Text := utf8DecodeFrom {} b

/-- The bytes of an ASCII text, in any of the encodings. -/
def ofAscii (s : Text) : Bytes := s.map fun c => UInt8.ofNat c.toNat

theorem utf8Encode_eq_ofAscii {s : Text} (h : Text.IsAscii s) : utf8Encode s = ofAscii s := by
  induction s with
  | nil => rfl
  | cons c s ih =>
      have hc : c.val.toNat ≤ 0x7f := Nat.le_of_lt_succ (h c (by simp))
      rw [utf8Encode, List.flatMap_cons, String.utf8EncodeChar]
      simp only [hc, if_true]
      exact congrArg (_ :: ·) (ih fun d hd => h d (List.mem_cons_of_mem _ hd))

theorem utf8Decode_ofAscii {s : Text} (h : Text.IsAscii s) : utf8Decode (ofAscii s) = s := by
  unfold utf8Decode
  induction s with
  | nil => rfl
  | cons c s ih =>
      have hc : c.toNat < 128 := h c (by simp)
      have hb : (UInt8.ofNat c.toNat).toNat = c.toNat := by
        rw [UInt8.toNat_ofNat']
        exact Nat.mod_eq_of_lt (by omega)
      have hn : Utf8.next {} (UInt8.ofNat c.toNat).toNat = ([c], {}) := by
        simp [Utf8.next, Utf8.lead, hb, hc]
      have hs := ih fun d hd => h d (List.mem_cons_of_mem _ hd)
      simp only [ofAscii, List.map_cons, utf8DecodeFrom, hn] at hs ⊢
      rw [hs]
      rfl

theorem latin1_ofAscii {s : Text} (h : Text.IsAscii s) : latin1 (ofAscii s) = s := by
  rw [latin1, ofAscii, List.map_map]
  refine (List.map_congr_left fun c hc => ?_).trans (List.map_id s)
  change Char.ofNat (UInt8.ofNat c.toNat).toNat = c
  have hlt : c.toNat < 2 ^ 8 := (h c hc).trans (by decide)
  rw [UInt8.toNat_ofNat', Nat.mod_eq_of_lt hlt, Char.ofNat_toNat]

/-! ## Bytes that were decoded as latin1 -/

theorem utf8Encode_append (a b : Text) : utf8Encode (a ++ b) = utf8Encode a ++ utf8Encode b :=
  List.flatMap_append

/-- A byte that was decoded as latin1 is encoded as itself if it is ASCII, and else as two bytes
that are not. -/
theorem utf8EncodeChar_latin1 (b : UInt8) :
    String.utf8EncodeChar (Char.ofNat b.toNat) = [b] ∧ b.toNat < 128 ∨
      ∃ hi lo : UInt8, String.utf8EncodeChar (Char.ofNat b.toNat) = [hi, lo] ∧
        128 ≤ b.toNat ∧ 128 ≤ hi.toNat ∧ 128 ≤ lo.toNat := by
  have hlt := b.toNat_lt
  have hv : (Char.ofNat b.toNat).val.toNat = b.toNat := toNat_latin1 b
  unfold String.utf8EncodeChar
  simp only [hv]
  by_cases hb : b.toNat ≤ 0x7f
  · refine Or.inl ⟨?_, by omega⟩
    rw [if_pos hb, UInt8.ofNat_toNat]
  · rw [if_neg hb, if_pos (by omega)]
    refine Or.inr ⟨_, _, rfl, by omega, ?_, ?_⟩
    · rw [UInt8.toNat_ofNat']
      omega
    · rw [UInt8.toNat_ofNat']
      omega

/-- What becomes of bytes that are decoded as latin1 and encoded as UTF-8. -/
def reencode (b : Bytes) : Bytes := utf8Encode (latin1 b)

theorem reencode_cons (b : UInt8) (rest : Bytes) :
    reencode (b :: rest) = String.utf8EncodeChar (Char.ofNat b.toNat) ++ reencode rest := rfl

theorem length_reencode (b : Bytes) : b.length ≤ (reencode b).length := by
  induction b with
  | nil => exact Nat.le_refl 0
  | cons c rest ih =>
      rw [reencode_cons, List.length_append, List.length_cons]
      rcases utf8EncodeChar_latin1 c with ⟨hc, -⟩ | ⟨hi, lo, hc, -⟩
      · rw [hc, List.length_singleton]
        omega
      · rw [hc, List.length_cons]
        omega

/-- Exactly the ASCII bytes come back as they were. -/
theorem reencode_eq_iff (b : Bytes) : reencode b = b ↔ ∀ c ∈ b, c.toNat < 128 := by
  induction b with
  | nil => exact iff_of_true rfl (by simp)
  | cons c rest ih =>
      rw [reencode_cons, List.forall_mem_cons]
      rcases utf8EncodeChar_latin1 c with ⟨hc, hlt⟩ | ⟨hi, lo, hc, hge, -⟩
      · rw [hc, List.singleton_append, List.cons.injEq, ih]
        exact and_congr_left' (iff_of_true rfl hlt)
      · rw [hc]
        refine iff_of_false (fun h => ?_) (fun h => absurd h.1 (by omega))
        have hlen := congrArg List.length h
        have hle := length_reencode rest
        simp only [List.length_append, List.length_cons, List.length_nil] at hlen
        omega

/-- No new ASCII byte comes up. -/
theorem mem_of_mem_reencode {b : Bytes} {c : UInt8} (hc : c.toNat < 128) (h : c ∈ reencode b) :
    c ∈ b := by
  induction b with
  | nil => cases h
  | cons d rest ih =>
      rw [reencode_cons, List.mem_append] at h
      rcases h with h | h
      · rcases utf8EncodeChar_latin1 d with ⟨hd, -⟩ | ⟨hi, lo, hd, -, hhi, hlo⟩
        · rw [hd, List.mem_singleton] at h
          exact List.mem_cons.mpr (.inl h)
        · rw [hd, List.mem_cons, List.mem_singleton] at h
          rcases h with rfl | rfl
          · omega
          · omega
      · exact .tail d (ih h)

/-! ## Reading back what was encoded -/

theorem Utf8.lead_two {b : Nat} (hl : 0xc2 ≤ b) (hu : b ≤ 0xdf) :
    Utf8.lead b = ([], { wanted := 1, bits := b % 32 }) := by
  have h : ¬ b < 0x80 := by omega
  simp [Utf8.lead, h, hl, hu]

theorem Utf8.lead_three {b : Nat} (hl : 0xe0 ≤ b) (hu : b ≤ 0xef) :
    Utf8.lead b = ([], ⟨2, b % 16, if b = 0xe0 then 0xa0 else 0x80,
      if b = 0xed then 0x9f else 0xbf⟩) := by
  have h : ¬ b < 0x80 := by omega
  have h2 : ¬ b ≤ 0xdf := by omega
  simp [Utf8.lead, h, h2, hl, hu]

theorem Utf8.lead_four {b : Nat} (hl : 0xf0 ≤ b) (hu : b ≤ 0xf4) :
    Utf8.lead b = ([], ⟨3, b % 8, if b = 0xf0 then 0x90 else 0x80,
      if b = 0xf4 then 0x8f else 0xbf⟩) := by
  have h : ¬ b < 0x80 := by omega
  have h2 : ¬ b ≤ 0xdf := by omega
  have h3 : ¬ b ≤ 0xef := by omega
  simp [Utf8.lead, h, h2, h3, hl, hu]

/-- The byte that completes a sequence. -/
theorem Utf8.next_last {u : Utf8} {b : Nat} (hw : u.wanted = 1) (hl : u.lower ≤ b)
    (hu : b ≤ u.upper) : u.next b = ([Char.ofNat (u.bits * 64 + b % 64)], {}) := by
  simp [Utf8.next, hw, hl, hu]

/-- A byte that is followed by another one. -/
theorem Utf8.next_more {u : Utf8} {b : Nat} (hw : 1 < u.wanted) (hl : u.lower ≤ b)
    (hu : b ≤ u.upper) :
    u.next b = ([], { wanted := u.wanted - 1, bits := u.bits * 64 + b % 64 }) := by
  have h0 : u.wanted ≠ 0 := by omega
  have h1 : u.wanted ≠ 1 := by omega
  simp [Utf8.next, h0, h1, hl, hu]

theorem toNat_ofNat_of_lt {n : Nat} (h : n < 256) : (UInt8.ofNat n).toNat = n := by
  rw [UInt8.toNat_ofNat']
  exact Nat.mod_eq_of_lt h

/-- The last continuation byte of a character. -/
theorem Utf8.next_final (v : Nat) :
    Utf8.next { wanted := 1, bits := v / 64 } (v % 64 + 128) = ([Char.ofNat v], {}) := by
  rw [Utf8.next_last rfl (show 128 ≤ v % 64 + 128 by omega) (show v % 64 + 128 ≤ 191 by omega)]
  congr 3
  dsimp only
  omega

theorem utf8DecodeFrom_two {v : Nat} (hl : 0x7f < v) (hu : v ≤ 0x7ff) (rest : Bytes) :
    utf8DecodeFrom {} (UInt8.ofNat (v / 64 % 32 + 192) :: UInt8.ofNat (v % 64 + 128) :: rest) =
      Char.ofNat v :: utf8DecodeFrom {} rest := by
  have h0 : Utf8.next {} (v / 64 % 32 + 192) = ([], { wanted := 1, bits := v / 64 }) := by
    have hb : (v / 64 % 32 + 192) % 32 = v / 64 := by omega
    simp only [Utf8.next, if_true, Utf8.lead_two (show 0xc2 ≤ v / 64 % 32 + 192 by omega)
      (by omega), hb]
  simp only [List.nil_append, List.cons_append, utf8DecodeFrom,
    toNat_ofNat_of_lt (show v / 64 % 32 + 192 < 256 by omega),
    toNat_ofNat_of_lt (show v % 64 + 128 < 256 by omega), h0, Utf8.next_final]

theorem utf8DecodeFrom_three {v : Nat} (hl : 0x7ff < v) (hu : v ≤ 0xffff)
    (hs : v < 0xd800 ∨ 0xdfff < v) (rest : Bytes) :
    utf8DecodeFrom {} (UInt8.ofNat (v / 4096 % 16 + 224) :: UInt8.ofNat (v / 64 % 64 + 128) ::
      UInt8.ofNat (v % 64 + 128) :: rest) = Char.ofNat v :: utf8DecodeFrom {} rest := by
  have h0 : Utf8.next {} (v / 4096 % 16 + 224) = ([], ⟨2, v / 4096,
      if v / 4096 = 0 then 0xa0 else 0x80, if v / 4096 = 13 then 0x9f else 0xbf⟩) := by
    have hb : (v / 4096 % 16 + 224) % 16 = v / 4096 := by omega
    have hl : (v / 4096 % 16 + 224 = 0xe0) = (v / 4096 = 0) := propext (by omega)
    have hu : (v / 4096 % 16 + 224 = 0xed) = (v / 4096 = 13) := propext (by omega)
    simp only [Utf8.next, if_true, Utf8.lead_three (show 0xe0 ≤ v / 4096 % 16 + 224 by omega)
      (by omega), hb, hl, hu]
  have h1 : Utf8.next ⟨2, v / 4096, if v / 4096 = 0 then 0xa0 else 0x80,
      if v / 4096 = 13 then 0x9f else 0xbf⟩ (v / 64 % 64 + 128) =
      ([], { wanted := 1, bits := v / 64 }) := by
    rw [Utf8.next_more (show 1 < 2 by omega) (by dsimp only; split <;> omega)
      (by dsimp only; split <;> omega)]
    congr 2
    dsimp only
    omega
  simp only [List.nil_append, List.cons_append, utf8DecodeFrom,
    toNat_ofNat_of_lt (show v / 4096 % 16 + 224 < 256 by omega),
    toNat_ofNat_of_lt (show v / 64 % 64 + 128 < 256 by omega),
    toNat_ofNat_of_lt (show v % 64 + 128 < 256 by omega), h0, h1, Utf8.next_final]

theorem utf8DecodeFrom_four {v : Nat} (hl : 0xffff < v) (hu : v < 0x110000) (rest : Bytes) :
    utf8DecodeFrom {} (UInt8.ofNat (v / 262144 % 8 + 240) ::
      UInt8.ofNat (v / 4096 % 64 + 128) :: UInt8.ofNat (v / 64 % 64 + 128) ::
      UInt8.ofNat (v % 64 + 128) :: rest) = Char.ofNat v :: utf8DecodeFrom {} rest := by
  have h0 : Utf8.next {} (v / 262144 % 8 + 240) = ([], ⟨3, v / 262144,
      if v / 262144 = 0 then 0x90 else 0x80, if v / 262144 = 4 then 0x8f else 0xbf⟩) := by
    have hb : (v / 262144 % 8 + 240) % 8 = v / 262144 := by omega
    have hl : (v / 262144 % 8 + 240 = 0xf0) = (v / 262144 = 0) := propext (by omega)
    have hu : (v / 262144 % 8 + 240 = 0xf4) = (v / 262144 = 4) := propext (by omega)
    simp only [Utf8.next, if_true, Utf8.lead_four (show 0xf0 ≤ v / 262144 % 8 + 240 by omega)
      (by omega), hb, hl, hu]
  have h1 : Utf8.next ⟨3, v / 262144, if v / 262144 = 0 then 0x90 else 0x80,
      if v / 262144 = 4 then 0x8f else 0xbf⟩ (v / 4096 % 64 + 128) =
      ([], { wanted := 2, bits := v / 4096 }) := by
    rw [Utf8.next_more (show 1 < 3 by omega) (by dsimp only; split <;> omega)
      (by dsimp only; split <;> omega)]
    congr 2
    dsimp only
    omega
  have h2 : Utf8.next { wanted := 2, bits := v / 4096 } (v / 64 % 64 + 128) =
      ([], { wanted := 1, bits := v / 64 }) := by
    rw [Utf8.next_more (show 1 < 2 by omega) (show 128 ≤ v / 64 % 64 + 128 by omega)
      (show v / 64 % 64 + 128 ≤ 191 by omega)]
    congr 2
    dsimp only
    omega
  simp only [List.nil_append, List.cons_append, utf8DecodeFrom,
    toNat_ofNat_of_lt (show v / 262144 % 8 + 240 < 256 by omega),
    toNat_ofNat_of_lt (show v / 4096 % 64 + 128 < 256 by omega),
    toNat_ofNat_of_lt (show v / 64 % 64 + 128 < 256 by omega),
    toNat_ofNat_of_lt (show v % 64 + 128 < 256 by omega), h0, h1, h2, Utf8.next_final]

/-- The bytes of one character are read back as it. -/
theorem utf8DecodeFrom_encodeChar (c : Char) (rest : Bytes) :
    utf8DecodeFrom {} (String.utf8EncodeChar c ++ rest) = c :: utf8DecodeFrom {} rest := by
  have hc : Char.ofNat c.val.toNat = c := Char.ofNat_toNat c
  have hvalid : c.val.toNat < 0xd800 ∨ 0xdfff < c.val.toNat ∧ c.val.toNat < 0x110000 := c.valid
  conv_rhs => rw [← hc]
  unfold String.utf8EncodeChar
  generalize c.val.toNat = v at hvalid ⊢
  dsimp only
  split
  · have hn : Utf8.next {} v = ([Char.ofNat v], {}) := by
      simp [Utf8.next, Utf8.lead, show v < 128 by omega]
    simp only [List.cons_append, List.nil_append, utf8DecodeFrom,
      toNat_ofNat_of_lt (show v < 256 by omega), hn]
  split
  · exact utf8DecodeFrom_two (by omega) (by omega) rest
  split
  · exact utf8DecodeFrom_three (by omega) (by omega) (by omega) rest
  · exact utf8DecodeFrom_four (by omega) (by omega) rest

theorem utf8Decode_utf8Encode (s : Text) : utf8Decode (utf8Encode s) = s := by
  unfold utf8Decode
  induction s with
  | nil => rfl
  | cons c s ih =>
      rw [utf8Encode, List.flatMap_cons, utf8DecodeFrom_encodeChar]
      exact congrArg (c :: ·) ih

end Bytes
end DshClashProxy.Js
