import Mathlib.Data.List.Infix

/-!
# Lines that end in two marks

A block is a list of lines, each followed by the two marks that end it. Lines in which no mark
occurs can be read off their block, and the first empty line behind them is the one that ends
the block.
-/
namespace DshClashProxy.Lib.Lines

variable {α : Type} {cr lf : α}

/-- The lines, each with its end. -/
def block (cr lf : α) (lines : List (List α)) : List α := lines.flatMap (· ++ [cr, lf])

theorem block_cons (line : List α) (lines : List (List α)) :
    block cr lf (line :: lines) = line ++ cr :: lf :: block cr lf lines := by
  rw [block, List.flatMap_cons, List.append_assoc]
  rfl

theorem block_append (a b : List (List α)) :
    block cr lf (a ++ b) = block cr lf a ++ block cr lf b := List.flatMap_append

/-- Lines that are joined by their ends lack only the last one. -/
theorem intercalate_append_end {lines : List (List α)} (h : lines ≠ []) :
    [cr, lf].intercalate lines ++ [cr, lf] = block cr lf lines := by
  induction lines with
  | nil => exact absurd rfl h
  | cons line rest ih =>
      cases rest with
      | nil => rw [List.intercalate_singleton, block, List.flatMap_singleton]
      | cons next rest =>
          rw [List.intercalate_cons_cons, List.append_assoc, ih (List.cons_ne_nil _ _),
            block_cons line, List.append_assoc]
          rfl

/-- What goes through a concatenation goes through a joined list. -/
theorem apply_intercalate {β : Type} {f : List α → List β}
    (hf : ∀ a b, f (a ++ b) = f a ++ f b) (separator : List α) (pieces : List (List α)) :
    f (separator.intercalate pieces) = (f separator).intercalate (pieces.map f) := by
  induction pieces with
  | nil => exact List.append_left_eq_self.mp (hf [] []).symm
  | cons piece rest ih =>
      cases rest with
      | nil => simp only [List.map_cons, List.map_nil, List.intercalate_singleton]
      | cons next rest =>
          rw [List.intercalate_cons_cons, hf, hf, ih]
          simp only [List.map_cons, List.intercalate_cons_cons]

/-- A joined list starts with its first piece. -/
theorem exists_intercalate_cons (separator piece : List α) (rest : List (List α)) :
    ∃ tail, separator.intercalate (piece :: rest) = piece ++ tail := by
  cases rest with
  | nil => exact ⟨[], by rw [List.intercalate_singleton, List.append_nil]⟩
  | cons next rest => exact ⟨_, by rw [List.intercalate_cons_cons, List.append_assoc]⟩

/-- A part ends where a mark that does not occur in it comes first. -/
theorem append_cons_inj {c : α} {a b x y : List α} (ha : c ∉ a) (hb : c ∉ b)
    (h : a ++ c :: x = b ++ c :: y) : a = b ∧ x = y := by
  induction a generalizing b with
  | nil =>
      cases b with
      | nil => exact ⟨rfl, (List.cons.inj h).2⟩
      | cons d b => exact absurd (List.mem_cons.mpr (.inl (List.cons.inj h).1)) hb
  | cons d a ih =>
      cases b with
      | nil => exact absurd (List.mem_cons.mpr (.inl (List.cons.inj h).1.symm)) ha
      | cons e b =>
          obtain ⟨hd, htail⟩ := List.cons.inj h
          obtain ⟨hab, hxy⟩ := ih (fun hm => ha (.tail d hm)) (fun hm => hb (.tail e hm)) htail
          exact ⟨by rw [hd, hab], hxy⟩

/-- A block with something behind it is nothing but what is behind it only without lines. -/
theorem block_append_ne (line tail : List α) (lines : List (List α)) :
    block cr lf (line :: lines) ++ tail ≠ tail := by
  intro h
  have := congrArg List.length h
  rw [block_cons] at this
  simp only [List.length_append, List.length_cons] at this
  omega

/-- Lines in which no mark occurs can be read off their block. -/
theorem block_inj {a b : List (List α)} {tail : List α} (ha : ∀ line ∈ a, cr ∉ line)
    (hb : ∀ line ∈ b, cr ∉ line) (h : block cr lf a ++ tail = block cr lf b ++ tail) : a = b := by
  induction a generalizing b with
  | nil =>
      cases b with
      | nil => rfl
      | cons line b => exact absurd h.symm (block_append_ne line tail b)
  | cons line a ih =>
      cases b with
      | nil => exact absurd h (block_append_ne line tail a)
      | cons line' b =>
          rw [block_cons, block_cons, List.append_assoc, List.append_assoc] at h
          obtain ⟨hline, h⟩ := append_cons_inj (ha line List.mem_cons_self)
            (hb line' List.mem_cons_self) h
          have htail := ih (fun l hl => ha l (.tail line hl)) (fun l hl => hb l (.tail line' hl))
            (List.cons.inj h).2
          rw [hline, htail]

/-- A line without the first mark hides no part that starts with it. -/
theorem infix_append_iff {line pattern s : List α} (h : cr ∉ line) :
    cr :: pattern <:+: line ++ s ↔ cr :: pattern <:+: s := by
  induction line with
  | nil => rfl
  | cons c line ih =>
      rw [List.mem_cons, not_or] at h
      have hpre : ¬ cr :: pattern <+: c :: (line ++ s) := fun hp =>
        h.1 (List.cons_prefix_cons.mp hp).1
      rw [List.cons_append, List.infix_cons_iff, ih h.2]
      exact or_iff_right hpre

/-- A block never starts with an empty line. -/
theorem not_prefix_block {lines : List (List α)} (h : ∀ line ∈ lines, line ≠ [] ∧ cr ∉ line) :
    ¬ [cr, lf] <+: block cr lf lines ++ [cr] := by
  cases lines with
  | nil =>
      intro hp
      exact absurd hp.length_le (by simp [block])
  | cons line rest =>
      obtain ⟨hne, hcr⟩ := h line List.mem_cons_self
      obtain ⟨c, line, rfl⟩ := List.exists_cons_of_ne_nil hne
      intro hp
      rw [block_cons] at hp
      exact hcr (List.mem_cons.mpr (.inl (List.cons_prefix_cons.mp hp).1))

/-- The first empty line behind a block is the one behind all its lines. -/
theorem not_infix_block (hne : cr ≠ lf) {lines : List (List α)}
    (h : ∀ line ∈ lines, line ≠ [] ∧ cr ∉ line) :
    ¬ [cr, lf, cr, lf] <:+: (block cr lf lines ++ [cr, lf]).dropLast := by
  have hlast : (block cr lf lines ++ [cr, lf]).dropLast = block cr lf lines ++ [cr] := by
    rw [List.dropLast_append_of_ne_nil (List.cons_ne_nil _ _)]
    rfl
  rw [hlast]
  clear hlast
  induction lines with
  | nil =>
      intro hi
      exact absurd hi.length_le (by simp [block])
  | cons line rest ih =>
      have hrest : ∀ l ∈ rest, l ≠ [] ∧ cr ∉ l := fun l hl => h l (.tail line hl)
      rw [block_cons, List.append_assoc, infix_append_iff (h line List.mem_cons_self).2,
        List.cons_append, List.cons_append, List.infix_cons_iff, List.infix_cons_iff]
      intro hi
      rcases hi with hi | hi | hi
      · have hp := (List.cons_prefix_cons.mp hi).2
        exact not_prefix_block hrest (List.cons_prefix_cons.mp hp).2
      · exact hne (List.cons_prefix_cons.mp hi).1
      · exact ih hrest hi

end DshClashProxy.Lib.Lines
