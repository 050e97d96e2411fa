import Mathlib.Data.List.Basic

/-!
# Tables that cover what lies below their entries

A table covers the values below one of its entries. Along a transitive relation an entry
below another adds nothing, so entries may be dropped as long as those that cover them stay.
-/
namespace DshClashProxy.Lib.Cover

variable {α : Type}

/-- The value lies below an entry of the table. -/
def Covers (below : α → α → Prop) (table : List α) (a : α) : Prop := ∃ s ∈ table, below a s

/-- Go through the entries and keep those that nothing kept so far covers. -/
def prune (covered : List α → α → Bool) : List α → List α → List α
  | kept, [] => kept
  | kept, s :: rest =>
      if covered kept s then prune covered kept rest else prune covered (kept ++ [s]) rest

variable {below : α → α → Prop}

theorem covers_append (t₁ t₂ : List α) (a : α) :
    Covers below (t₁ ++ t₂) a ↔ Covers below t₁ a ∨ Covers below t₂ a := by
  simp only [Covers, List.mem_append, or_and_right, exists_or]

/-- Only the entries of a table matter, not their order or number. -/
theorem covers_congr {t₁ t₂ : List α} (h : ∀ s, s ∈ t₁ ↔ s ∈ t₂) (a : α) :
    Covers below t₁ a ↔ Covers below t₂ a :=
  exists_congr fun s => and_congr_left fun _ => h s

/-- A table covers what lies below a value it covers. -/
theorem Covers.of_below (htrans : ∀ a b c, below a b → below b c → below a c) {table : List α}
    {a b : α} (h : Covers below table b) (hab : below a b) : Covers below table a := by
  obtain ⟨s, hs, hb⟩ := h
  exact ⟨s, hs, htrans a b s hab hb⟩

/-- Dropping covered entries leaves the coverage alone. -/
theorem covers_prune (htrans : ∀ a b c, below a b → below b c → below a c)
    {covered : List α → α → Bool} (hcovered : ∀ kept s, covered kept s = true → Covers below kept s)
    (kept table : List α) (a : α) :
    Covers below (prune covered kept table) a ↔ Covers below kept a ∨ Covers below table a := by
  induction table generalizing kept with
  | nil =>
      have hnil : ¬ Covers below [] a := by simp [Covers]
      rw [prune, or_iff_left hnil]
  | cons s rest ih =>
      have hcons : Covers below (s :: rest) a ↔ below a s ∨ Covers below rest a := by
        rw [Covers, List.exists_mem_cons_iff]
        rfl
      rw [prune, hcons]
      by_cases hs : covered kept s = true
      · rw [if_pos hs, ih]
        constructor
        · exact fun h => h.imp_right Or.inr
        · intro h
          rcases h with h | h | h
          · exact Or.inl h
          · exact Or.inl ((hcovered kept s hs).of_below htrans h)
          · exact Or.inr h
      · have hone : Covers below [s] a ↔ below a s := by simp [Covers]
        rw [if_neg hs, ih, covers_append, hone, or_assoc]

/-- Where the entries come in the order of a measure along which an entry can only lie below
itself or a smaller one, those that are kept do not lie below one another. -/
theorem prune_antichain {measure : α → Nat}
    (hstrict : ∀ a b, below a b → a = b ∨ measure b < measure a) {covered : List α → α → Bool}
    (hcovered : ∀ kept s, Covers below kept s → covered kept s = true) {kept table : List α}
    (hkept : kept.Pairwise fun a b => ¬ below a b ∧ ¬ below b a)
    (hfirst : ∀ k ∈ kept, ∀ s ∈ table, measure k ≤ measure s)
    (hsorted : table.Pairwise fun a b => measure a ≤ measure b) :
    (prune covered kept table).Pairwise fun a b => ¬ below a b ∧ ¬ below b a := by
  induction table generalizing kept with
  | nil => exact hkept
  | cons s rest ih =>
      obtain ⟨hs, hrest⟩ := List.pairwise_cons.mp hsorted
      have hlater : ∀ k ∈ kept, ∀ t ∈ rest, measure k ≤ measure t :=
        fun k hk t ht => hfirst k hk t (List.mem_cons_of_mem s ht)
      rw [prune]
      by_cases hcov : covered kept s = true
      · rw [if_pos hcov]
        exact ih hkept hlater hrest
      · rw [if_neg hcov]
        have hnew : ∀ k ∈ kept, ¬ below s k := fun k hk hb => hcov (hcovered kept s ⟨k, hk, hb⟩)
        apply ih _ _ hrest
        · refine List.pairwise_append.mpr ⟨hkept, List.pairwise_singleton _ s, fun k hk t ht => ?_⟩
          rw [List.mem_singleton.mp ht]
          refine ⟨fun hb => ?_, hnew k hk⟩
          -- a kept entry is not larger, so it could only lie below the new one by being it
          rcases hstrict k s hb with rfl | hlt
          · exact hnew k hk hb
          · exact absurd (hfirst k hk s List.mem_cons_self) (Nat.not_le_of_lt hlt)
        · intro k hk t ht
          rcases List.mem_append.mp hk with hk | hk
          · exact hlater k hk t ht
          · rw [List.mem_singleton.mp hk]
            exact hs t ht

end DshClashProxy.Lib.Cover
