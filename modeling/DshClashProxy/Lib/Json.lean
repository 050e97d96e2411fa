import Mathlib.Data.List.TakeDrop
import Mathlib.Data.List.TakeWhile

/-!
# JSON texts

A reader of JSON texts, and the printed form of flat objects, whose members are scalars. A
numeral is kept as it is spelled, since what it stands for is up to who reads it. Printing a
flat object and reading it returns its members.
-/
namespace DshClashProxy.Lib.Json

inductive Value where
  | null
  | bool (b : Bool)
  | number (literal : List Char)
  | string (text : List Char)
  | array (elements : List Value)
  | object (members : List (List Char × Value))

def isSpace (c : Char) : Bool := c = ' ' || c = '\t' || c = '\r' || c = '\n'

def skipSpace (s : List Char) : List Char := s.dropWhile isSpace

/-! ## Strings -/

def hexValue (c : Char) : Option Nat :=
  if c.isDigit then some (c.toNat - 48)
  else if 'a' ≤ c ∧ c ≤ 'f' then some (c.toNat - 87)
  else if 'A' ≤ c ∧ c ≤ 'F' then some (c.toNat - 55)
  else none

/-- The code unit that four hex digits stand for. -/
def codeUnit (a b c d : Char) : Option Nat := do
  return (((← hexValue a) * 16 + (← hexValue b)) * 16 + (← hexValue c)) * 16 + (← hexValue d)

/-- The character of a two-character escape. -/
def unescape : Char → Option Char
  | '"' => some '"'
  | '\\' => some '\\'
  | '/' => some '/'
  | 'b' => some '\x08'
  | 'f' => some '\x0c'
  | 'n' => some '\n'
  | 'r' => some '\r'
  | 't' => some '\t'
  | _ => none

/-- A high surrogate that nothing follows. -/
def unpaired : Option Nat → List Char
  | none => []
  | some _ => ['\ufffd']

/-- What is left of a string up to its closing quote, and what follows. A high surrogate waits
for its low one. -/
def readString (high : Option Nat) : List Char → Option (List Char × List Char)
  | [] => none
  | '"' :: s => some (unpaired high, s)
  | '\\' :: 'u' :: a :: b :: c :: d :: s =>
      match codeUnit a b c d with
      | none => none
      | some unit =>
          if 0xd800 ≤ unit ∧ unit < 0xdc00 then
            (readString (some unit) s).map fun r => (unpaired high ++ r.1, r.2)
          else if 0xdc00 ≤ unit ∧ unit < 0xe000 then
            (readString none s).map fun r =>
              ((match high with
                | some high => Char.ofNat (0x10000 + (high - 0xd800) * 0x400 + (unit - 0xdc00))
                | none => '\ufffd') :: r.1, r.2)
          else (readString none s).map fun r => (unpaired high ++ Char.ofNat unit :: r.1, r.2)
  | '\\' :: c :: s =>
      match unescape c with
      | none => none
      | some c => (readString none s).map fun r => (unpaired high ++ c :: r.1, r.2)
  | c :: s =>
      if c.toNat < 0x20 ∨ c = '\\' then none
      else (readString none s).map fun r => (unpaired high ++ c :: r.1, r.2)

/-- The character as it is printed in a string. -/
def escape (c : Char) : List Char :=
  if c = '"' then ['\\', '"']
  else if c = '\\' then ['\\', '\\']
  else if c = '\x08' then ['\\', 'b']
  else if c = '\x0c' then ['\\', 'f']
  else if c = '\n' then ['\\', 'n']
  else if c = '\r' then ['\\', 'r']
  else if c = '\t' then ['\\', 't']
  else if c.toNat < 0x20 then
    ['\\', 'u', '0', '0', Nat.digitChar (c.toNat / 16), Nat.digitChar (c.toNat % 16)]
  else [c]

def quote (s : List Char) : List Char := '"' :: s.flatMap escape ++ ['"']

theorem hexValue_digitChar : ∀ n < 16, hexValue (Nat.digitChar n) = some n := by decide

theorem readString_escape (c : Char) (s : List Char) :
    readString none (escape c ++ s) = (readString none s).map fun r => (c :: r.1, r.2) := by
  unfold escape
  split_ifs with h1 h2 h3 h4 h5 h6 h7 h8
  all_goals try (subst c; rfl)
  · have hhigh := hexValue_digitChar (c.toNat / 16) (by omega)
    have hlow := hexValue_digitChar (c.toNat % 16) (by omega)
    have hsum : ((0 * 16 + 0) * 16 + c.toNat / 16) * 16 + c.toNat % 16 = c.toNat := by omega
    have hunit : codeUnit '0' '0' (Nat.digitChar (c.toNat / 16)) (Nat.digitChar (c.toNat % 16)) =
        some c.toNat := by
      rw [codeUnit, hhigh, hlow]
      exact congrArg some hsum
    have hchar : Char.ofNat c.toNat = c := Char.ofNat_toNat c
    simp only [List.cons_append, List.nil_append]
    rw [readString]
    simp only [hunit]
    rw [if_neg (by omega), if_neg (by omega), hchar]
    rfl
  · rw [List.singleton_append, readString.eq_def]
    split
    · next h => cases h
    · next h => exact absurd (List.cons.inj h).1 h1
    · next h => exact absurd (List.cons.inj h).1 h2
    · next h => exact absurd (List.cons.inj h).1 h2
    · next h =>
        obtain ⟨rfl, rfl⟩ := List.cons.inj h
        rw [if_neg (by rintro (h | h); exacts [h8 h, h2 h])]
        rfl

theorem readString_quoted (t s : List Char) :
    readString none (t.flatMap escape ++ '"' :: s) = some (t, s) := by
  induction t with
  | nil => rfl
  | cons c t ih => rw [List.flatMap_cons, List.append_assoc, readString_escape, ih]; rfl

/-! ## Numerals -/

/-- A numeral of the grammar, in its parts. -/
structure Numeral where
  negative : Bool := false
  whole : List Char
  fraction : List Char := []
  /-- The sign and the digits of the exponent. -/
  exponent : Option (Char × List Char) := none
  whole_ne : whole ≠ []
  whole_digits : ∀ c ∈ whole, c.isDigit = true
  whole_head : whole.head? = some '0' → whole = ['0']
  fraction_digits : ∀ c ∈ fraction, c.isDigit = true
  exponent_form : ∀ e ∈ exponent, (e.1 = '+' ∨ e.1 = '-') ∧ e.2 ≠ [] ∧ ∀ c ∈ e.2, c.isDigit = true

namespace Numeral

def sign (n : Numeral) : List Char := if n.negative then ['-'] else []

def fractionText (n : Numeral) : List Char := if n.fraction = [] then [] else '.' :: n.fraction

def exponentText (n : Numeral) : List Char :=
  match n.exponent with
  | none => []
  | some (sign, digits) => 'e' :: sign :: digits

def text (n : Numeral) : List Char := n.sign ++ (n.whole ++ (n.fractionText ++ n.exponentText))

end Numeral

def readSign : List Char → List Char × List Char
  | '-' :: s => (['-'], s)
  | s => ([], s)

/-- A whole number without leading zeros. -/
def readWhole : List Char → Option (List Char × List Char)
  | '0' :: s => some (['0'], s)
  | s => match s.span Char.isDigit with
    | ([], _) => none
    | (digits, s) => some (digits, s)

def readFraction : List Char → Option (List Char × List Char)
  | '.' :: s => match s.span Char.isDigit with
    | ([], _) => none
    | (digits, s) => some ('.' :: digits, s)
  | s => some ([], s)

/-- The mark of an exponent with its sign, if it has one. -/
def readMark : List Char → Option (List Char × List Char)
  | 'e' :: '+' :: s => some (['e', '+'], s)
  | 'e' :: '-' :: s => some (['e', '-'], s)
  | 'E' :: '+' :: s => some (['E', '+'], s)
  | 'E' :: '-' :: s => some (['E', '-'], s)
  | 'e' :: s => some (['e'], s)
  | 'E' :: s => some (['E'], s)
  | _ => none

def readExponent (s : List Char) : Option (List Char × List Char) :=
  match readMark s with
  | none => some ([], s)
  | some (mark, s) => match s.span Char.isDigit with
    | ([], _) => none
    | (digits, s) => some (mark ++ digits, s)

def readNumber (s : List Char) : Option (List Char × List Char) := do
  let (sign, s) := readSign s
  let (whole, s) ← readWhole s
  let (fraction, s) ← readFraction s
  let (exponent, s) ← readExponent s
  return (sign ++ (whole ++ (fraction ++ exponent)), s)

/-- What may follow a scalar. -/
def Ends (s : List Char) : Prop := ∃ c rest, s = c :: rest ∧ (c = ',' ∨ c = '}')

theorem span_digits {digits s : List Char} (hd : ∀ c ∈ digits, c.isDigit = true)
    (hs : ∀ c ∈ s.head?, c.isDigit = false) : (digits ++ s).span Char.isDigit = (digits, s) := by
  rw [List.span_eq_takeWhile_dropWhile, List.takeWhile_append_of_pos hd,
    List.dropWhile_append_of_pos hd]
  cases s with
  | nil => simp
  | cons c rest => simp [hs c rfl]

theorem Numeral.readExponent_text (n : Numeral) {s : List Char} (hs : Ends s) :
    readExponent (n.exponentText ++ s) = some (n.exponentText, s) := by
  obtain ⟨c, rest, rfl, hc⟩ := hs
  have hdigit : ∀ x ∈ (c :: rest).head?, x.isDigit = false := by
    rintro x hx
    obtain rfl := Option.some.inj hx
    rcases hc with rfl | rfl <;> rfl
  unfold exponentText
  cases he : n.exponent with
  | none =>
      rcases hc with rfl | rfl <;> rfl
  | some e =>
      obtain ⟨sign, digits⟩ := e
      obtain ⟨hsign, hne, hdigits⟩ := n.exponent_form _ he
      have hmark : readMark ('e' :: sign :: (digits ++ c :: rest)) =
          some (['e', sign], digits ++ c :: rest) := by
        rcases hsign with h | h <;> (simp only at h; subst h; rfl)
      simp only [List.cons_append, readExponent, hmark, span_digits hdigits hdigit]
      cases digits with
      | nil => exact absurd rfl hne
      | cons d ds => rfl

theorem Numeral.readFraction_text (n : Numeral) {s : List Char} (hs : Ends s) :
    readFraction (n.fractionText ++ (n.exponentText ++ s)) =
      some (n.fractionText, n.exponentText ++ s) := by
  obtain ⟨c, rest, rfl, hc⟩ := hs
  have hhead : ∃ x tail, n.exponentText ++ c :: rest = x :: tail ∧ x.isDigit = false ∧ x ≠ '.' := by
    unfold exponentText
    split
    · refine ⟨c, rest, rfl, ?_⟩
      rcases hc with rfl | rfl <;> exact ⟨rfl, by decide⟩
    · exact ⟨'e', _, rfl, rfl, by decide⟩
  obtain ⟨x, tail, htail, hx, hdot⟩ := hhead
  rw [htail]
  unfold fractionText
  split
  · rw [List.nil_append, readFraction.eq_def]
    split
    · next h => exact absurd (List.cons.inj h).1 hdot
    · rfl
  · next hne =>
      have hspan := span_digits n.fraction_digits (s := x :: tail)
        fun y hy => by rwa [← Option.some.inj hy]
      rw [List.cons_append, readFraction, hspan]
      cases hf : n.fraction with
      | nil => exact absurd hf hne
      | cons d ds => rfl

theorem Numeral.readWhole_text (n : Numeral) {s : List Char} (hs : Ends s) :
    readWhole (n.whole ++ (n.fractionText ++ (n.exponentText ++ s))) =
      some (n.whole, n.fractionText ++ (n.exponentText ++ s)) := by
  obtain ⟨c, rest, rfl, hc⟩ := hs
  have hhead : ∀ x ∈ (n.fractionText ++ (n.exponentText ++ c :: rest)).head?,
      x.isDigit = false := by
    intro x hx
    unfold fractionText exponentText at hx
    split at hx
    · split at hx
      · obtain rfl := Option.some.inj hx
        rcases hc with rfl | rfl <;> rfl
      · obtain rfl := Option.some.inj hx
        rfl
    · obtain rfl := Option.some.inj hx
      rfl
  have hspan := span_digits n.whole_digits hhead
  cases hw : n.whole with
  | nil => exact absurd hw n.whole_ne
  | cons d ds =>
      by_cases hzero : d = '0'
      · have hone := n.whole_head (by rw [hw, hzero]; rfl)
        rw [hw] at hone
        obtain ⟨-, rfl⟩ := List.cons.inj hone
        rw [hzero]
        rfl
      · rw [hw, List.cons_append] at hspan
        rw [List.cons_append, readWhole.eq_def]
        split
        · next h => exact absurd (List.cons.inj h).1 hzero
        · rw [hspan]

/-- A numeral is read back with what follows it. -/
theorem Numeral.readNumber_text (n : Numeral) {s : List Char} (hs : Ends s) :
    readNumber (n.text ++ s) = some (n.text, s) := by
  have hsign : readSign (n.text ++ s) =
      (n.sign, n.whole ++ (n.fractionText ++ (n.exponentText ++ s))) := by
    simp only [text, List.append_assoc]
    unfold sign
    split
    · rfl
    · rw [List.nil_append]
      cases hw : n.whole with
      | nil => exact absurd hw n.whole_ne
      | cons d ds =>
          have hd := n.whole_digits d (by rw [hw]; exact List.mem_cons_self)
          rw [List.cons_append, readSign.eq_def]
          split
          · next h =>
              obtain ⟨rfl, -⟩ := List.cons.inj h
              cases hd
          · rfl
  simp only [readNumber, hsign, n.readWhole_text hs, n.readFraction_text hs,
    n.readExponent_text hs, Option.bind_eq_bind, Option.bind_some]
  rfl

/-! ## Values -/

mutual

/-- A value in front of a text. Every call takes a character off the text, so that its length
bounds the fuel. -/
def readValue : Nat → List Char → Option (Value × List Char)
  | 0, _ => none
  | _ + 1, '"' :: s => (readString none s).map fun r => (.string r.1, r.2)
  | fuel + 1, '{' :: s =>
      match skipSpace s with
      | '}' :: s => some (.object [], s)
      | s => (readMembers fuel s).map fun r => (.object r.1, r.2)
  | fuel + 1, '[' :: s =>
      match skipSpace s with
      | ']' :: s => some (.array [], s)
      | s => (readElements fuel s).map fun r => (.array r.1, r.2)
  | _ + 1, 't' :: 'r' :: 'u' :: 'e' :: s => some (.bool true, s)
  | _ + 1, 'f' :: 'a' :: 'l' :: 's' :: 'e' :: s => some (.bool false, s)
  | _ + 1, 'n' :: 'u' :: 'l' :: 'l' :: s => some (.null, s)
  | _ + 1, s => (readNumber s).map fun r => (.number r.1, r.2)

/-- The members of an object up to its closing brace. -/
def readMembers : Nat → List Char → Option (List (List Char × Value) × List Char)
  | 0, _ => none
  | fuel + 1, '"' :: s =>
      match readString none s with
      | none => none
      | some (key, s) =>
          match skipSpace s with
          | ':' :: s =>
              match readValue fuel (skipSpace s) with
              | none => none
              | some (value, s) =>
                  match skipSpace s with
                  | '}' :: s => some ([(key, value)], s)
                  | ',' :: s =>
                      (readMembers fuel (skipSpace s)).map fun r => ((key, value) :: r.1, r.2)
                  | _ => none
          | _ => none
  | _ + 1, _ => none

/-- The elements of an array up to its closing bracket. -/
def readElements : Nat → List Char → Option (List Value × List Char)
  | 0, _ => none
  | fuel + 1, s =>
      match readValue fuel s with
      | none => none
      | some (value, s) =>
          match skipSpace s with
          | ']' :: s => some ([value], s)
          | ',' :: s => (readElements fuel (skipSpace s)).map fun r => (value :: r.1, r.2)
          | _ => none

end

/-- The value of a whole text. -/
def read (s : List Char) : Option Value :=
  match readValue (s.length + 1) (skipSpace s) with
  | none => none
  | some (value, rest) => if skipSpace rest = [] then some value else none

/-! ## Flat objects -/

inductive Scalar where
  | null
  | bool (b : Bool)
  | number (n : Numeral)
  | string (text : List Char)

def Scalar.value : Scalar → Value
  | null => .null
  | bool b => .bool b
  | number n => .number n.text
  | string s => .string s

def Scalar.text : Scalar → List Char
  | null => ['n', 'u', 'l', 'l']
  | bool true => ['t', 'r', 'u', 'e']
  | bool false => ['f', 'a', 'l', 's', 'e']
  | number n => n.text
  | string s => quote s

def memberText (m : List Char × Scalar) : List Char := quote m.1 ++ ':' :: m.2.text

def objectText (members : List (List Char × Scalar)) : List Char :=
  '{' :: [','].intercalate (members.map memberText) ++ ['}']

theorem Numeral.text_head (n : Numeral) :
    ∃ c rest, n.text = c :: rest ∧ (c = '-' ∨ c.isDigit = true) := by
  unfold text sign
  split
  · exact ⟨'-', _, rfl, .inl rfl⟩
  · cases hw : n.whole with
    | nil => exact absurd hw n.whole_ne
    | cons d ds =>
        exact ⟨d, _, rfl, .inr (n.whole_digits d (by rw [hw]; exact List.mem_cons_self))⟩

theorem readValue_scalar (fuel : Nat) (v : Scalar) {s : List Char} (hs : Ends s) :
    readValue (fuel + 1) (v.text ++ s) = some (v.value, s) := by
  cases v with
  | null => rfl
  | bool b => cases b <;> rfl
  | string t =>
      simp only [Scalar.text, quote, List.cons_append, List.append_assoc, List.nil_append]
      rw [readValue, readString_quoted]
      rfl
  | number n =>
      have hread := n.readNumber_text hs
      obtain ⟨c, rest, htext, hc⟩ := n.text_head
      have hne : ∀ d : Char, d ≠ '-' → d.isDigit = false → c ≠ d := by
        rintro d h1 h2 rfl
        rcases hc with rfl | hc
        · exact h1 rfl
        · rw [h2] at hc; cases hc
      rw [Scalar.text, Scalar.value]
      rw [htext, List.cons_append] at hread ⊢
      rw [readValue.eq_def]
      split
      · next h => cases h
      · next h => exact absurd (List.cons.inj h).1 (hne _ (by decide) rfl)
      · next h => exact absurd (List.cons.inj h).1 (hne _ (by decide) rfl)
      · next h => exact absurd (List.cons.inj h).1 (hne _ (by decide) rfl)
      · next h => exact absurd (List.cons.inj h).1 (hne _ (by decide) rfl)
      · next h => exact absurd (List.cons.inj h).1 (hne _ (by decide) rfl)
      · next h => exact absurd (List.cons.inj h).1 (hne _ (by decide) rfl)
      · rw [hread]
        rfl

theorem skipSpace_cons {c : Char} (h : isSpace c = false) (s : List Char) :
    skipSpace (c :: s) = c :: s :=
  List.dropWhile_cons_of_neg (by rw [h]; decide)

/-- A printed scalar does not start with space. -/
theorem Scalar.skipSpace_text (v : Scalar) (s : List Char) :
    skipSpace (v.text ++ s) = v.text ++ s := by
  cases v with
  | null => rfl
  | bool b => cases b <;> rfl
  | string t => rfl
  | number n =>
      obtain ⟨c, rest, htext, hc⟩ := n.text_head
      have hspace : isSpace c = false := by
        rcases hc with rfl | hc
        · rfl
        · simp only [isSpace, Bool.or_eq_false_iff, decide_eq_false_iff_not]
          refine ⟨⟨⟨?_, ?_⟩, ?_⟩, ?_⟩ <;> rintro rfl <;> cases hc
      rw [Scalar.text, htext, List.cons_append, skipSpace_cons hspace]

theorem readMembers_member (fuel : Nat) (m : List Char × Scalar) (s : List Char) :
    readMembers (fuel + 2) (memberText m ++ '}' :: s) = some ([(m.1, m.2.value)], s) ∧
      readMembers (fuel + 2) (memberText m ++ ',' :: s) =
        (readMembers (fuel + 1) (skipSpace s)).map fun r => ((m.1, m.2.value) :: r.1, r.2) := by
  have hmember : ∀ s, Ends s → readMembers (fuel + 2) (memberText m ++ s) =
      match skipSpace s with
      | '}' :: s => some ([(m.1, m.2.value)], s)
      | ',' :: s =>
          (readMembers (fuel + 1) (skipSpace s)).map fun r => ((m.1, m.2.value) :: r.1, r.2)
      | _ => none := by
    intro s hs
    simp only [memberText, quote, List.cons_append, List.append_assoc, List.nil_append]
    rw [readMembers, readString_quoted]
    simp only [skipSpace_cons (show isSpace ':' = false from rfl)]
    rw [m.2.skipSpace_text, readValue_scalar fuel m.2 hs]
  exact ⟨hmember _ ⟨_, _, rfl, .inr rfl⟩, hmember _ ⟨_, _, rfl, .inl rfl⟩⟩

theorem readMembers_text (m : List Char × Scalar) (ms : List (List Char × Scalar)) (fuel : Nat)
    (s : List Char) (hf : ms.length ≤ fuel) :
    readMembers (fuel + 2) ([','].intercalate ((m :: ms).map memberText) ++ '}' :: s) =
      some ((m :: ms).map fun m => (m.1, m.2.value), s) := by
  induction ms generalizing m fuel with
  | nil =>
      rw [List.map_cons, List.map_nil, List.intercalate_singleton, (readMembers_member fuel m s).1]
      rfl
  | cons m' ms ih =>
      rw [List.length_cons] at hf
      obtain ⟨fuel, rfl⟩ : ∃ k, fuel = k + 1 := ⟨fuel - 1, by omega⟩
      have hskip : skipSpace ([','].intercalate ((m' :: ms).map memberText) ++ '}' :: s) =
          [','].intercalate ((m' :: ms).map memberText) ++ '}' :: s := by
        cases ms <;> rfl
      have hsplit : [','].intercalate ((m :: m' :: ms).map memberText) ++ '}' :: s =
          memberText m ++ ',' :: ([','].intercalate ((m' :: ms).map memberText) ++ '}' :: s) := by
        rw [List.map_cons, List.map_cons, List.intercalate_cons_cons, List.append_assoc,
          List.append_assoc]
        rfl
      rw [hsplit, (readMembers_member (fuel + 1) m _).2, hskip, ih m' fuel (by omega)]
      rfl

theorem length_intercalate (ms : List (List Char × Scalar)) :
    ms.length ≤ ([','].intercalate (ms.map memberText)).length := by
  induction ms with
  | nil => exact Nat.zero_le _
  | cons m ms ih =>
      cases ms with
      | nil =>
          rw [List.map_cons, List.map_nil, List.intercalate_singleton, List.length_singleton,
            memberText, List.length_append, List.length_cons]
          omega
      | cons m' ms =>
          rw [List.map_cons, List.map_cons, List.intercalate_cons_cons, ← List.map_cons,
            List.length_append, List.length_append, List.length_cons, List.length_singleton]
          omega

/-- A printed object is read back with all its members, in their order. -/
theorem read_objectText (ms : List (List Char × Scalar)) :
    read (objectText ms) = some (.object (ms.map fun m => (m.1, m.2.value))) := by
  cases ms with
  | nil => rfl
  | cons m ms =>
      have hread := readMembers_text m ms ([','].intercalate ((m :: ms).map memberText)).length []
        (by have := length_intercalate (m :: ms); rw [List.length_cons] at this; omega)
      have hskip : skipSpace (objectText (m :: ms)) = objectText (m :: ms) := rfl
      have hvalue : readValue ((objectText (m :: ms)).length + 1) (objectText (m :: ms)) =
          (readMembers (objectText (m :: ms)).length
            ([','].intercalate ((m :: ms).map memberText) ++ ['}'])).map fun r =>
              (.object r.1, r.2) := by
        cases ms <;> rfl
      have hlength : (objectText (m :: ms)).length =
          ([','].intercalate ((m :: ms).map memberText)).length + 2 := by
        rw [objectText, List.length_append, List.length_cons, List.length_singleton]
      rw [read, hskip, hvalue, hlength, hread]
      rfl

end DshClashProxy.Lib.Json
