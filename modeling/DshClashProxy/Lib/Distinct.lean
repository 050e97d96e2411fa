import Mathlib.Data.List.Infix
import Mathlib.Data.List.Nodup

/-!
# Lists without repetitions

`List.eraseDups` keeps the first occurrence of each element. What it keeps is a set with an order:
each element once, in the order in which they first occur.
-/
namespace DshClashProxy.Lib.Distinct

variable {α : Type} [BEq α] [LawfulBEq α]

/-- An element at the end is kept where it is new. -/
theorem eraseDups_concat (l : List α) (a : α) :
    (l ++ [a]).eraseDups = if a ∈ l then l.eraseDups else l.eraseDups ++ [a] := by
  rw [List.eraseDups_append, List.removeAll]
  by_cases h : a ∈ l
  · have hfilter : [a].filter (fun x => !l.elem x) = [] := by simp [h]
    rw [if_pos h, hfilter, List.eraseDups_nil, List.append_nil]
  · have hfilter : [a].filter (fun x => !l.elem x) = [a] := by simp [h]
    have hone : [a].eraseDups = [a] := by simp [List.eraseDups_cons]
    rw [if_neg h, hfilter, hone]

theorem nodup_eraseDups (l : List α) : l.eraseDups.Nodup := by
  induction l using List.reverseRecOn with
  | nil => exact List.nodup_nil
  | append_singleton l a ih =>
      rw [eraseDups_concat]
      split
      · exact ih
      · next hnew =>
          refine List.nodup_append.mpr ⟨ih, List.nodup_singleton a, fun x hx y hy => ?_⟩
          rintro rfl
          rw [List.mem_singleton.mp hy] at hx
          exact hnew (List.mem_eraseDups.mp hx)

theorem eraseDups_of_nodup {l : List α} (h : l.Nodup) : l.eraseDups = l := by
  induction l using List.reverseRecOn with
  | nil => rfl
  | append_singleton l a ih =>
      obtain ⟨hl, -, hdisjoint⟩ := List.nodup_append.mp h
      have hnew : a ∉ l := fun ha => hdisjoint a ha a List.mem_cons_self rfl
      rw [eraseDups_concat, if_neg hnew, ih hl]

/-- What is kept stands in the order of the first occurrences. -/
theorem eraseDups_ordered (l : List α) :
    l.eraseDups.Pairwise fun a b => l.idxOf a < l.idxOf b := by
  induction l using List.reverseRecOn with
  | nil => exact List.Pairwise.nil
  | append_singleton l a ih =>
      have hkept : l.eraseDups.Pairwise fun x y => (l ++ [a]).idxOf x < (l ++ [a]).idxOf y := by
        refine ih.imp_of_mem fun {x y} hx hy hlt => ?_
        rwa [List.idxOf_append_of_mem (List.mem_eraseDups.mp hx),
          List.idxOf_append_of_mem (List.mem_eraseDups.mp hy)]
      rw [eraseDups_concat]
      split
      · exact hkept
      · next hnew =>
          refine List.pairwise_append.mpr ⟨hkept, List.pairwise_singleton _ _, fun x hx y hy => ?_⟩
          have hmem := List.mem_eraseDups.mp hx
          rw [List.mem_singleton.mp hy, List.idxOf_append_of_mem hmem,
            List.idxOf_append_of_notMem hnew]
          exact Nat.lt_add_right _ (List.idxOf_lt_length_of_mem hmem)

/-- Elements in front of a list that starts with them add nothing. -/
theorem eraseDups_append_eraseDups (a b : List α) :
    (a ++ (a ++ b).eraseDups).eraseDups = (a ++ b).eraseDups := by
  have hrest : ((a ++ b).eraseDups).removeAll a = (b.removeAll a).eraseDups := by
    have hfront : a.eraseDups.removeAll a = [] := by
      refine List.filter_eq_nil_iff.mpr fun x hx => ?_
      simp [List.mem_eraseDups.mp hx]
    have hback : (b.removeAll a).eraseDups.removeAll a = (b.removeAll a).eraseDups := by
      refine List.filter_eq_self.mpr fun x hx => ?_
      exact (List.mem_filter.mp (List.mem_eraseDups.mp hx)).2
    rw [List.eraseDups_append, List.removeAll, List.filter_append]
    exact congrArg₂ (· ++ ·) hfront hback
  rw [List.eraseDups_append, hrest, eraseDups_of_nodup (nodup_eraseDups _), List.eraseDups_append]

end DshClashProxy.Lib.Distinct
