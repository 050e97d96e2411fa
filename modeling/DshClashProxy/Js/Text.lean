import Mathlib.Data.List.Infix

/-!
# Strings

A string is the list of its characters. Separators of one character use
`List.splitOn` and `List.intercalate`; the operations here are the remaining ones, with
the language's own edge cases. Case mapping beyond ASCII is a parameter that carries the
one fact the development needs of it.
-/
namespace DshClashProxy.Js

abbrev Text := List Char

namespace Text

/-- The white space and line terminators that `trim` removes. -/
def isSpace (c : Char) : Bool :=
  let n := c.toNat
  (9 ≤ n && n ≤ 13) || n = 32 || n = 0xa0 || n = 0x1680 || (0x2000 ≤ n && n ≤ 0x200a) ||
    n = 0x2028 || n = 0x2029 || n = 0x202f || n = 0x205f || n = 0x3000 || n = 0xfeff

def trimStart (s : Text) : Text := s.dropWhile isSpace

def trimEnd (s : Text) : Text := (s.reverse.dropWhile isSpace).reverse

def trim (s : Text) : Text := trimEnd (trimStart s)

def includes (s pattern : Text) : Bool := decide (pattern <:+: s)

def startsWith (s pattern : Text) : Bool := pattern.isPrefixOf s

def endsWith (s pattern : Text) : Bool := pattern.isSuffixOf s

/-- The first position of a character. -/
def indexOf (s : Text) (c : Char) : Option Nat := s.idxOf? c

/-- The last position of a character. -/
def lastIndexOf (s : Text) (c : Char) : Option Nat :=
  (s.reverse.idxOf? c).map fun i => s.length - 1 - i

/-- `slice(start, end)`, where an end of -1 drops the last character. -/
def sliceTo (s : Text) : Option Nat → Text
  | some stop => s.take stop
  | none => s.dropLast

/-- `slice(index + 1)`, where the index may be -1. -/
def sliceAfter (s : Text) : Option Nat → Text
  | some index => s.drop (index + 1)
  | none => s

/-- The pieces of a string around a separator of any positive length. `skip` counts the
characters of a separator that are still to be passed. -/
def splitGo (separator : Text) : Text → Nat → Text → List Text
  | [], _, piece => [piece.reverse]
  | _ :: rest, skip + 1, piece => splitGo separator rest skip piece
  | c :: rest, 0, piece =>
      if separator.isPrefixOf (c :: rest) then
        piece.reverse :: splitGo separator rest (separator.length - 1) []
      else splitGo separator rest 0 (c :: piece)

def split (s separator : Text) : List Text := splitGo separator s 0 []

def IsAscii (s : Text) : Prop := ∀ c ∈ s, c.toNat < 128

instance (s : Text) : Decidable (IsAscii s) :=
  show Decidable (∀ c ∈ s, c.toNat < 128) from List.decidableBAll _ s

/-- `toLowerCase` and `toUpperCase`. -/
structure CaseMap where
  toLower : Text → Text
  toUpper : Text → Text
  toLower_ascii : ∀ s, IsAscii s → toLower s = s.map Char.toLower
  toUpper_ascii : ∀ s, IsAscii s → toUpper s = s.map Char.toUpper

/-- The case mapping that leaves all other characters alone. -/
def CaseMap.ascii : CaseMap where
  toLower s := s.map Char.toLower
  toUpper s := s.map Char.toUpper
  toLower_ascii _ _ := rfl
  toUpper_ascii _ _ := rfl

theorem trimStart_cons {c : Char} {s : Text} (h : isSpace c = false) :
    trimStart (c :: s) = c :: s := by
  simp [trimStart, h]

/-- A string whose first and last characters are not white space is left alone. -/
theorem trim_of_ends {s : Text} (hh : ∀ c ∈ s.head?, isSpace c = false)
    (hl : ∀ c ∈ s.getLast?, isSpace c = false) : trim s = s := by
  have hs : trimStart s = s := by
    cases s with
    | nil => rfl
    | cons c s => exact trimStart_cons (hh c rfl)
  rw [trim, hs, trimEnd]
  have hr : s.reverse.dropWhile isSpace = s.reverse := by
    cases hrev : s.reverse with
    | nil => rfl
    | cons c t =>
        have hc : s.getLast? = some c := by
          rw [← List.head?_reverse, hrev]
          rfl
        simp [hl c (by rw [hc]; rfl)]
  rw [hr, List.reverse_reverse]

theorem trim_of_no_space {s : Text} (h : ∀ c ∈ s, isSpace c = false) : trim s = s :=
  trim_of_ends (fun c hc => h c (List.mem_of_head? hc)) fun c hc => h c (List.mem_of_getLast? hc)

/-- A first character that is not white space stays first. -/
theorem trim_cons {c : Char} (h : isSpace c = false) (s : Text) :
    ∃ t, trim (c :: s) = c :: t := by
  rw [trim, trimStart_cons h, trimEnd, List.reverse_cons, List.dropWhile_append]
  by_cases hr : (s.reverse.dropWhile isSpace).isEmpty = true
  · exact ⟨[], by simp [hr, h]⟩
  · rw [if_neg hr, List.reverse_append]
    exact ⟨_, rfl⟩

theorem trimEnd_append {c : Char} (h : isSpace c = false) (a b : Text) :
    trimEnd (a ++ c :: b) = a ++ c :: trimEnd b := by
  rw [trimEnd, List.reverse_append, List.reverse_cons, List.append_assoc, List.singleton_append,
    List.dropWhile_append, trimEnd]
  by_cases hb : (b.reverse.dropWhile isSpace).isEmpty = true
  · rw [if_pos hb, List.isEmpty_iff.mp hb, List.dropWhile_cons_of_neg (by simp [h])]
    simp
  · rw [if_neg hb]
    simp

/-- A separator that does not occur leaves the string in one piece. -/
theorem splitGo_of_not_infix {separator s : Text} (h : ¬ separator <:+: s) (piece : Text) :
    splitGo separator s 0 piece = [piece.reverse ++ s] := by
  induction s generalizing piece with
  | nil => simp [splitGo]
  | cons c rest ih =>
      have hp : separator.isPrefixOf (c :: rest) = false := by
        rw [← Bool.not_eq_true, List.isPrefixOf_iff_prefix]
        exact fun hpre => h hpre.isInfix
      have hrest : ¬ separator <:+: rest := fun hi => h (hi.trans (List.suffix_cons c rest).isInfix)
      rw [splitGo, if_neg (by simp [hp]), ih hrest]
      simp

theorem split_of_not_infix {s separator : Text} (h : ¬ separator <:+: s) :
    split s separator = [s] := splitGo_of_not_infix h []

theorem splitGo_head (separator s : Text) (skip : Nat) (piece : Text) :
    ∃ t pieces, splitGo separator s skip piece = (piece.reverse ++ t) :: pieces := by
  induction s generalizing skip piece with
  | nil => exact ⟨[], [], by simp [splitGo]⟩
  | cons c rest ih =>
      cases skip with
      | succ skip => exact ih skip piece
      | zero =>
          rw [splitGo]
          split
          · exact ⟨[], _, by rw [List.append_nil]⟩
          · obtain ⟨t, pieces, h⟩ := ih 0 (c :: piece)
            exact ⟨c :: t, pieces, by rw [h]; simp⟩

/-- A part without the first character of the separator goes to the current piece. -/
theorem splitGo_append {d : Char} {a : Text} (h : d ∉ a) (separator b piece : Text) :
    splitGo (d :: separator) (a ++ b) 0 piece =
      splitGo (d :: separator) b 0 (a.reverse ++ piece) := by
  induction a generalizing piece with
  | nil => rfl
  | cons c a ih =>
      rw [List.mem_cons, not_or] at h
      have hp : (d :: separator).isPrefixOf (c :: (a ++ b)) = false := by
        rw [List.isPrefixOf, beq_eq_false_iff_ne.mpr h.1, Bool.false_and]
      rw [List.cons_append, splitGo, hp, if_neg Bool.false_ne_true, ih h.2, List.reverse_cons,
        List.append_assoc]
      rfl

theorem splitGo_skip (separator a b piece : Text) :
    splitGo separator (a ++ b) a.length piece = splitGo separator b 0 piece := by
  induction a with
  | nil => rfl
  | cons c a ih => exact ih

/-- A pattern that first ends behind an element does not start at it. -/
theorem not_prefix_of_not_infix {α : Type} {pattern a : List α} {c : α}
    (h : ¬ pattern <:+: (c :: a ++ pattern).dropLast) (b : List α) :
    ¬ pattern <+: c :: (a ++ pattern ++ b) := by
  intro hf
  have hlen : pattern.length ≤ (c :: a ++ pattern).dropLast.length := by
    rw [List.length_dropLast, List.length_append, List.length_cons]
    omega
  have hsub : (c :: a ++ pattern).dropLast <+: c :: (a ++ pattern ++ b) :=
    (List.dropLast_prefix _).trans (List.prefix_append (c :: a ++ pattern) b)
  exact h (List.prefix_of_prefix_length_le hf hsub hlen).isInfix

/-- A pattern that first ends behind an element first ends behind the next. -/
theorem not_infix_tail {α : Type} {pattern a : List α} {c : α} (hp : pattern ≠ [])
    (h : ¬ pattern <:+: (c :: a ++ pattern).dropLast) : ¬ pattern <:+: (a ++ pattern).dropLast := by
  rw [List.cons_append, List.dropLast_cons_of_ne_nil (by simp [hp])] at h
  exact fun hi => h (hi.trans (List.suffix_cons _ _).isInfix)

/-- The first occurrence of the separator ends the first piece. -/
theorem split_append {separator a : Text} (hs : separator ≠ [])
    (h : ¬ separator <:+: (a ++ separator).dropLast) (b : Text) :
    split (a ++ separator ++ b) separator = a :: split b separator := by
  suffices hgo : ∀ piece, splitGo separator (a ++ separator ++ b) 0 piece =
      (piece.reverse ++ a) :: split b separator from hgo []
  induction a with
  | nil =>
      intro piece
      obtain ⟨c, rest, rfl⟩ := List.exists_cons_of_ne_nil hs
      have hpre : (c :: rest).isPrefixOf (c :: (rest ++ b)) = true :=
        List.isPrefixOf_iff_prefix.mpr (List.prefix_append (c :: rest) b)
      rw [List.nil_append, List.cons_append, splitGo, if_pos hpre, List.length_cons,
        Nat.add_sub_cancel, splitGo_skip, List.append_nil, split]
  | cons c a ih =>
      intro piece
      have hpre : ¬ separator.isPrefixOf (c :: (a ++ separator ++ b)) = true := fun hf =>
        not_prefix_of_not_infix h b (List.isPrefixOf_iff_prefix.mp hf)
      rw [List.cons_append, List.cons_append, splitGo, if_neg hpre, ih (not_infix_tail hs h)]
      simp

/-- Splitting undoes joining where no piece meets the separator. -/
theorem split_intercalate {separator : Text} (hs : separator ≠ []) {pieces : List Text}
    (hne : pieces ≠ []) (h : ∀ p ∈ pieces, ¬ separator <:+: (p ++ separator).dropLast) :
    split (separator.intercalate pieces) separator = pieces := by
  induction pieces with
  | nil => exact absurd rfl hne
  | cons p rest ih =>
      have hp := h p List.mem_cons_self
      cases rest with
      | nil =>
          rw [List.dropLast_append_of_ne_nil hs] at hp
          rw [List.intercalate_singleton]
          exact split_of_not_infix fun hi => hp (hi.trans (List.prefix_append _ _).isInfix)
      | cons q rest =>
          rw [List.intercalate_cons_cons, split_append hs hp,
            ih (List.cons_ne_nil _ _) fun r hr => h r (.tail p hr)]

/-- A string that does not start with the separator keeps its first character in front. -/
theorem split_cons {separator : Text} {c : Char} (s : Text)
    (h : separator.isPrefixOf (c :: s) = false) :
    ∃ t pieces, split (c :: s) separator = (c :: t) :: pieces := by
  obtain ⟨t, pieces, hs⟩ := splitGo_head separator s 0 [c]
  refine ⟨t, pieces, ?_⟩
  rw [split, splitGo, if_neg (by simp [h]), hs]
  rfl

theorem splitOn_cons {c : Char} (s : Text) {separator : Char} (h : c ≠ separator) :
    ∃ t pieces, (c :: s).splitOn separator = (c :: t) :: pieces := by
  rw [List.splitOn_cons_eq_if_modifyHead, if_neg (by simpa using h)]
  cases hs : s.splitOn separator with
  | nil => exact absurd hs (List.splitOn_ne_nil _ _)
  | cons t pieces => exact ⟨t, pieces, rfl⟩

theorem mem_intercalate {separator : Text} {pieces : List Text} {c : Char}
    (h : c ∈ separator.intercalate pieces) : c ∈ separator ∨ ∃ p ∈ pieces, c ∈ p := by
  induction pieces with
  | nil => cases h
  | cons p rest ih =>
      cases rest with
      | nil => exact Or.inr ⟨p, by simp, by simpa using h⟩
      | cons q rest =>
          rw [List.intercalate_cons_cons, List.mem_append, List.mem_append] at h
          rcases h with (h | h) | h
          · exact Or.inr ⟨p, by simp, h⟩
          · exact Or.inl h
          · rcases ih h with h | ⟨r, hr, hc⟩
            · exact Or.inl h
            · exact Or.inr ⟨r, List.mem_cons_of_mem _ hr, hc⟩

theorem mem_intercalate_of_mem (separator : Text) {pieces : List Text} {p : Text} {c : Char}
    (hp : p ∈ pieces) (hc : c ∈ p) : c ∈ separator.intercalate pieces := by
  induction pieces with
  | nil => cases hp
  | cons q rest ih =>
      cases rest with
      | nil =>
          rw [List.intercalate_singleton]
          rwa [← List.mem_singleton.mp hp]
      | cons r rest =>
          rw [List.intercalate_cons_cons, List.mem_append, List.mem_append]
          rcases List.mem_cons.mp hp with rfl | hp
          · exact Or.inl (Or.inl hc)
          · exact Or.inr (ih hp)

theorem intercalate_append {c : Char} {a b : List Text} (ha : a ≠ []) (hb : b ≠ []) :
    [c].intercalate (a ++ b) = [c].intercalate a ++ c :: [c].intercalate b := by
  induction a with
  | nil => exact absurd rfl ha
  | cons p rest ih =>
      cases rest with
      | nil =>
          obtain ⟨q, b, rfl⟩ := List.exists_cons_of_ne_nil hb
          rw [List.singleton_append, List.intercalate_cons_cons, List.intercalate_singleton,
            List.append_assoc]
          rfl
      | cons q rest =>
          rw [List.cons_append, List.cons_append, List.intercalate_cons_cons,
            List.intercalate_cons_cons, ← List.cons_append, ih (by simp)]
          simp only [List.append_assoc]

theorem toLower_toLower {c : Char} (h : c.toNat < 128) : c.toLower.toLower = c.toLower := by
  have hall : ∀ n, n < 128 → (Char.ofNat n).toLower.toLower = (Char.ofNat n).toLower := by decide
  have := hall c.toNat h
  rwa [Char.ofNat_toNat] at this

theorem isAscii_toLower {s : Text} (h : IsAscii s) : IsAscii (s.map Char.toLower) := by
  have hall : ∀ n, n < 128 → (Char.ofNat n).toLower.toNat < 128 := by decide
  intro c hc
  obtain ⟨d, hd, rfl⟩ := List.mem_map.mp hc
  have := hall d.toNat (h d hd)
  rwa [Char.ofNat_toNat] at this

theorem idxOf?_append {α : Type} [BEq α] [LawfulBEq α] {c : α} {a b : List α} (h : c ∉ a) :
    (a ++ c :: b).idxOf? c = some a.length := by
  rw [List.idxOf?_eq_some_iff]
  refine ⟨by simp, by simp, ?_⟩
  intro j hj he
  rw [List.getElem_append_left hj] at he
  exact h (he ▸ List.getElem_mem hj)

theorem indexOf_append {c : Char} {a b : Text} (h : c ∉ a) :
    indexOf (a ++ c :: b) c = some a.length := idxOf?_append h

/-- The first position of a character cuts the string in front of it. -/
theorem split_at_indexOf {c : Char} {s : Text} {i : Nat} (h : indexOf s c = some i) :
    s = s.take i ++ c :: s.drop (i + 1) ∧ c ∉ s.take i := by
  rw [indexOf, List.idxOf?_eq_some_iff] at h
  obtain ⟨hi, hc, hbefore⟩ := h
  have hget : s[i] = c := by simpa using hc
  constructor
  · rw [← hget, List.cons_getElem_drop_succ, List.take_append_drop]
  · intro hmem
    obtain ⟨j, hj, he⟩ := List.mem_iff_getElem.mp hmem
    rw [List.length_take] at hj
    rw [List.getElem_take] at he
    exact hbefore j (by omega) (by simpa using he)

theorem lastIndexOf_append {c : Char} {a b : Text} (h : c ∉ b) :
    lastIndexOf (a ++ c :: b) c = some a.length := by
  have hi : (a ++ c :: b).reverse.idxOf? c = some b.length := by
    rw [List.reverse_append, List.reverse_cons, List.append_assoc, ← List.length_reverse]
    exact indexOf_append fun hc => h (List.mem_reverse.mp hc)
  rw [lastIndexOf, hi]
  simp only [List.length_append, List.length_cons, Option.map_some, Option.some.injEq]
  omega

/-- Trimming only takes characters away. -/
theorem mem_of_mem_trim {c : Char} {s : Text} (h : c ∈ trim s) : c ∈ s := by
  rw [trim, trimEnd, List.mem_reverse] at h
  have h := List.mem_reverse.mp ((List.dropWhile_suffix _).mem h)
  exact (List.dropWhile_suffix _).mem h

/-- Nothing is left to trim. -/
theorem trim_trim (s : Text) : trim (trim s) = trim s := by
  have hstart : ∀ (t : Text), ∀ c ∈ (t.dropWhile isSpace).head?, isSpace c = false := by
    intro t c hc
    have hnot := List.head?_dropWhile_not isSpace t
    rwa [Option.mem_def.mp hc] at hnot
  have hprefix : trim s <+: trimStart s :=
    List.reverse_suffix.mp
      (by rw [trim, trimEnd, List.reverse_reverse]; exact List.dropWhile_suffix _)
  refine trim_of_ends (fun c hc => ?_) fun c hc => ?_
  · obtain ⟨rest, hrest⟩ := hprefix
    refine hstart s c ?_
    change c ∈ (trimStart s).head?
    rw [← hrest, List.head?_append_of_ne_nil _ (by rintro h; rw [h] at hc; cases hc)]
    exact hc
  · rw [trim, trimEnd, List.getLast?_reverse] at hc
    exact hstart _ c hc

/-- No piece holds the separator. -/
theorem not_mem_of_mem_splitOn {c : Char} {s piece : Text} (h : piece ∈ s.splitOn c) :
    c ∉ piece := by
  induction s generalizing piece with
  | nil =>
      rw [List.splitOn_nil, List.mem_singleton] at h
      rw [h]
      exact List.not_mem_nil
  | cons d s ih =>
      rw [List.splitOn_cons_eq_if_modifyHead] at h
      by_cases hd : (d == c) = true
      · rw [if_pos hd] at h
        rcases List.mem_cons.mp h with rfl | h
        · exact List.not_mem_nil
        · exact ih h
      · rw [if_neg hd] at h
        obtain ⟨first, pieces, hs⟩ := List.exists_cons_of_ne_nil (List.splitOn_ne_nil c s)
        rw [hs, List.modifyHead_cons] at h
        rcases List.mem_cons.mp h with rfl | h
        · rw [List.mem_cons, not_or]
          exact ⟨fun he => hd (by simp [he]), ih (hs ▸ List.mem_cons_self)⟩
        · exact ih (hs ▸ List.mem_cons_of_mem first h)

end Text
end DshClashProxy.Js
