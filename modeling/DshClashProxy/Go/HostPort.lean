import DshClashProxy.Js.Buffer
import Mathlib.Data.List.TakeWhile

/-!
# Host and port of Go's net package

`net.JoinHostPort` puts a host with a colon in brackets, and `net.SplitHostPort` takes them off
again. The second undoes the first for every host without brackets of its own, and returns no
other host. The port goes through `fmt.Sscanf`, which gets it back from its digits.
-/
namespace DshClashProxy.Go

open Js

def colon : UInt8 := 0x3a

def openBracket : UInt8 := 0x5b

def closeBracket : UInt8 := 0x5d

def joinHostPort (host port : Bytes) : Bytes :=
  if colon ∈ host then [openBracket] ++ host ++ [closeBracket, colon] ++ port
  else host ++ [colon] ++ port

/-- `bytealg.LastIndexByteString`; none is a negative index. -/
def lastIndexByte (s : Bytes) (c : UInt8) : Option Nat :=
  (s.reverse.idxOf? c).map fun i => s.length - 1 - i

/-- The checks of `net.SplitHostPort` for brackets out of place, behind these positions. -/
def unbracketed (hostport host port : Bytes) (j k : Nat) : Except Text (Bytes × Bytes) :=
  if openBracket ∈ hostport.drop j then .error "unexpected '[' in address".toList
  else if closeBracket ∈ hostport.drop k then .error "unexpected ']' in address".toList
  else .ok (host, port)

def splitHostPort (hostport : Bytes) : Except Text (Bytes × Bytes) :=
  match lastIndexByte hostport colon with
  | none => .error "missing port in address".toList
  | some i =>
      let port := hostport.drop (i + 1)
      if hostport.head? = some openBracket then
        match hostport.idxOf? closeBracket with
        | none => .error "missing ']' in address".toList
        | some stop =>
            if stop + 1 = hostport.length then .error "missing port in address".toList
            else if stop + 1 = i then
              unbracketed hostport ((hostport.take stop).drop 1) port 1 (stop + 1)
            else if hostport[stop + 1]? = some colon then
              .error "too many colons in address".toList
            else .error "missing port in address".toList
      else
        let host := hostport.take i
        if colon ∈ host then .error "too many colons in address".toList
        else unbracketed hostport host port 0 0

/-- No bracket. -/
def Plain (s : Bytes) : Prop := openBracket ∉ s ∧ closeBracket ∉ s

theorem unbracketed_ok {hostport host port : Bytes} {j k : Nat} {r : Bytes × Bytes}
    (h : unbracketed hostport host port j k = .ok r) :
    openBracket ∉ hostport.drop j ∧ closeBracket ∉ hostport.drop k ∧ r = (host, port) := by
  unfold unbracketed at h
  split_ifs at h with ho hc
  exact ⟨ho, hc, (Except.ok.inj h).symm⟩

theorem unbracketed_of_not_mem {hostport host port : Bytes} {j k : Nat}
    (ho : openBracket ∉ hostport.drop j) (hc : closeBracket ∉ hostport.drop k) :
    unbracketed hostport host port j k = .ok (host, port) := by
  rw [unbracketed, if_neg ho, if_neg hc]

/-- In front of the first occurrence there is none. -/
theorem not_mem_take_idxOf {s : Bytes} {c : UInt8} {i : Nat} (h : s.idxOf? c = some i) :
    c ∉ s.take i := by
  intro hm
  obtain ⟨k, hk, he⟩ := List.mem_take_iff_getElem.mp hm
  have hfirst := (List.findIdx?_eq_some_iff_getElem.mp h).2.2 k (by omega)
  rw [he] at hfirst
  simp at hfirst

/-- A host that is returned has no brackets. -/
theorem plain_of_splitHostPort {hostport host port : Bytes}
    (h : splitHostPort hostport = .ok (host, port)) : Plain host := by
  unfold splitHostPort at h
  split at h
  · cases h
  · next i hi =>
      dsimp only at h
      split_ifs at h with hbracket hcolon
      · split at h
        · cases h
        · next stop hstop =>
            split_ifs at h
            obtain ⟨ho, -, hr⟩ := unbracketed_ok h
            cases hr
            refine ⟨fun hm => ho ?_, fun hm => not_mem_take_idxOf hstop (List.mem_of_mem_drop hm)⟩
            rw [List.drop_take] at hm
            exact List.mem_of_mem_take hm
      · obtain ⟨ho, hc, hr⟩ := unbracketed_ok h
        cases hr
        rw [List.drop_zero] at ho hc
        exact ⟨fun hm => ho (List.mem_of_mem_take hm), fun hm => hc (List.mem_of_mem_take hm)⟩

theorem lastIndexByte_append (a : Bytes) {b : Bytes} {c : UInt8} (h : c ∉ b) :
    lastIndexByte (a ++ c :: b) c = some a.length := by
  have hr : c ∉ b.reverse := fun hm => h (List.mem_reverse.mp hm)
  rw [lastIndexByte, List.reverse_append, List.reverse_cons, List.append_assoc,
    List.singleton_append, Text.idxOf?_append hr]
  simp only [Option.map_some, List.length_append, List.length_cons, List.length_reverse,
    Option.some.injEq]
  omega

/-- What was joined is split again, for a host without brackets. -/
theorem splitHostPort_join {host port : Bytes} (hh : Plain host) (hp : Plain port)
    (hc : colon ∉ port) : splitHostPort (joinHostPort host port) = .ok (host, port) := by
  by_cases hm : colon ∈ host
  · have hjoin : joinHostPort host port =
        (openBracket :: host ++ [closeBracket]) ++ colon :: port := by
      rw [joinHostPort, if_pos hm]
      simp
    have hlast := lastIndexByte_append (openBracket :: host ++ [closeBracket]) hc
    have hfirst : ((openBracket :: host ++ [closeBracket]) ++ colon :: port).idxOf? closeBracket =
        some (host.length + 1) := by
      have hfront : closeBracket ∉ openBracket :: host := fun h =>
        (List.mem_cons.mp h).elim (by decide) hh.2
      rw [List.append_assoc, List.singleton_append, Text.idxOf?_append hfront, List.length_cons]
    have hlen : (openBracket :: host ++ [closeBracket]).length = host.length + 1 + 1 := by simp
    rw [hjoin, splitHostPort, hlast]
    dsimp only
    rw [hlen, if_pos (by simp), hfirst]
    dsimp only
    rw [if_neg (by simp), if_pos rfl, unbracketed_of_not_mem]
    · congr 2
      · simp
      · rw [← hlen, List.drop_length_add_append]
        rfl
    · simp only [List.cons_append, List.drop_succ_cons, List.drop_zero, List.mem_append,
        List.mem_cons, List.not_mem_nil, or_false, not_or]
      exact ⟨⟨hh.1, by decide⟩, by decide, hp.1⟩
    · rw [← hlen, List.drop_left, List.mem_cons, not_or]
      exact ⟨by decide, hp.2⟩
  · have hjoin : joinHostPort host port = host ++ colon :: port := by
      rw [joinHostPort, if_neg hm, List.append_assoc, List.singleton_append]
    have hhead : ¬ (host ++ colon :: port).head? = some openBracket := by
      cases host with
      | nil => exact fun h => absurd (Option.some.inj h) (by decide)
      | cons c rest =>
          intro h
          exact hh.1 (by rw [← Option.some.inj h]; exact List.mem_cons_self)
    have hall : ∀ c, c ∉ host → c ≠ colon → c ∉ port → c ∉ (host ++ colon :: port).drop 0 := by
      intro c h1 h2 h3 h
      rcases List.mem_append.mp h with h | h
      · exact h1 h
      · rcases List.mem_cons.mp h with h | h
        · exact h2 h
        · exact h3 h
    rw [hjoin, splitHostPort, lastIndexByte_append host hc]
    dsimp only
    rw [if_neg hhead, List.take_left, if_neg hm,
      unbracketed_of_not_mem (hall _ hh.1 (by decide) hp.1) (hall _ hh.2 (by decide) hp.2),
      List.drop_length_add_append]
    rfl

/-- A host comes back through the joined text exactly when it has no brackets. -/
theorem splitHostPort_join_iff (host : Bytes) {port : Bytes} (hp : Plain port)
    (hc : colon ∉ port) :
    splitHostPort (joinHostPort host port) = .ok (host, port) ↔ Plain host :=
  ⟨plain_of_splitHostPort, fun hh => splitHostPort_join hh hp hc⟩

/-! ## The port -/

def isDigit (c : UInt8) : Bool := 0x30 ≤ c && c ≤ 0x39

/-- The number that decimal digits make up. -/
def ofDigits (s : Bytes) : Nat := Nat.ofDigitChars 10 (Bytes.latin1 s) 0

/-- `fmt.Sscanf` with `%d` into a variable that is zero, for a text without white space in front.
The variable keeps its zero where there are no digits, or too many. -/
def sscanf (s : Bytes) : Int :=
  let negative := s.head? = some 0x2d
  let unsigned := if negative ∨ s.head? = some 0x2b then s.drop 1 else s
  let n := ofDigits (unsigned.takeWhile isDigit)
  let value : Int := if negative then -n else n
  if -9223372036854775808 ≤ value ∧ value < 9223372036854775808 then value else 0

/-- `uint16(n)` -/
def uint16 (n : Int) : UInt16 := UInt16.ofNat (n % 65536).toNat

/-- The decimal digits of a number. -/
def decimalBytes (n : Nat) : Bytes := Bytes.ofAscii (Nat.toDigits 10 n)

/-- The digits of a number are characters from 0 to 9. -/
theorem toNat_of_mem_toDigits {n : Nat} {c : Char} (h : c ∈ Nat.toDigits 10 n) :
    48 ≤ c.toNat ∧ c.toNat ≤ 57 :=
  Char.isDigit_iff_toNat.mp (Nat.isDigit_of_mem_toDigits (by decide) (by decide) h)

theorem isDigit_decimalBytes (n : Nat) : ∀ c ∈ decimalBytes n, isDigit c = true := by
  intro c hc
  obtain ⟨d, hd, rfl⟩ := List.mem_map.mp hc
  obtain ⟨hlow, hhigh⟩ := toNat_of_mem_toDigits hd
  have hn := Bytes.toNat_ofNat_of_lt (n := d.toNat) (by omega)
  rw [isDigit, Bool.and_eq_true, decide_eq_true_eq, decide_eq_true_eq, UInt8.le_iff_toNat_le,
    UInt8.le_iff_toNat_le, hn]
  exact ⟨hlow, hhigh⟩

/-- The digits of a number are scanned as the number. -/
theorem sscanf_decimalBytes {n : Nat} (h : n < 2 ^ 63) : sscanf (decimalBytes n) = n := by
  have hdigit := isDigit_decimalBytes n
  have hhead : ∀ c, isDigit c = false → (decimalBytes n).head? ≠ some c := by
    intro c hc he
    rw [hdigit c (List.mem_of_head? he)] at hc
    cases hc
  have hascii : Text.IsAscii (Nat.toDigits 10 n) := fun c hc => by
    have := toNat_of_mem_toDigits hc
    omega
  have hvalue : ofDigits (decimalBytes n) = n := by
    rw [ofDigits, decimalBytes, Bytes.latin1_ofAscii hascii, Nat.ofDigitChars_ten_toDigits]
  have hminus := hhead 0x2d (by decide)
  have hplus := hhead 0x2b (by decide)
  rw [sscanf]
  simp only [hminus, hplus, or_self, if_false, List.takeWhile_eq_self_iff.mpr hdigit, hvalue,
    ite_eq_left_iff]
  omega

theorem uint16_sscanf {n : Nat} (h : n < 65536) :
    uint16 (sscanf (decimalBytes n)) = UInt16.ofNat n := by
  rw [sscanf_decimalBytes (h.trans (by decide)), uint16]
  congr 1
  omega

/-- Digits have no brackets and no colon. -/
theorem plain_decimalBytes (n : Nat) : Plain (decimalBytes n) ∧ colon ∉ decimalBytes n := by
  have h := isDigit_decimalBytes n
  exact ⟨⟨fun hm => absurd (h _ hm) (by decide), fun hm => absurd (h _ hm) (by decide)⟩,
    fun hm => absurd (h _ hm) (by decide)⟩

end DshClashProxy.Go
