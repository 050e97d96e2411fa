import Mathlib.Data.List.Infix

/-!
# What a program takes of a buffer

A program on a slice of a larger memory records the indexes and slices it takes. An index
behind the length of the slice panics, but slicing panics only behind its capacity, so a
program may get hold of what lies between the two.
-/
namespace DshClashProxy.Lib.Accesses

inductive Access where
  | index (i : Nat)
  | slice (start stop : Nat)
  deriving DecidableEq

/-- The access stays within this length. -/
def Access.Inside (length : Nat) : Access → Prop
  | .index i => i < length
  | .slice start stop => start ≤ stop ∧ stop ≤ length

/-- A result, none after a panic, and what was taken of the buffer until then. -/
structure Traced (α : Type) where
  result : Option α
  accesses : List Access

namespace Traced
variable {α β : Type}

instance : Monad Traced where
  pure a := ⟨some a, []⟩
  bind x f :=
    match x.result with
    | none => ⟨none, x.accesses⟩
    | some a => ⟨(f a).result, x.accesses ++ (f a).accesses⟩

/-- All that is taken lies within this length. -/
def Inside (length : Nat) (x : Traced α) : Prop := ∀ a ∈ x.accesses, a.Inside length

@[simp] theorem result_bind (x : Traced α) (f : α → Traced β) :
    (x >>= f).result = x.result.bind fun a => (f a).result := by
  change (match x.result with | none => _ | some a => _ : Traced β).result = _
  cases x.result with
  | none => rfl
  | some a => rfl

@[simp] theorem inside_pure (length : Nat) (a : α) : (pure a : Traced α).Inside length :=
  fun _ h => absurd h List.not_mem_nil

/-- What a sequence takes is what its first part takes and what the rest takes, unless the
first part panics. -/
theorem inside_bind {length : Nat} {x : Traced α} {f : α → Traced β} :
    (x >>= f).Inside length ↔
      x.Inside length ∧ ∀ a, x.result = some a → (f a).Inside length := by
  change (match x.result with | none => _ | some a => _ : Traced β).Inside length ↔ _
  cases hx : x.result with
  | none => simp [Inside]
  | some a =>
      simp only [Inside, List.mem_append, or_imp, forall_and, Option.some.injEq, forall_eq']

/-- A program does not panic, and stays inside. -/
structure Takes (length : Nat) (x : Traced α) (a : α) : Prop where
  result : x.result = some a
  inside : x.Inside length

namespace Takes
variable {length : Nat} {x : Traced α} {a : α} {f : α → Traced β}

theorem pure (length : Nat) (a : α) : (Pure.pure a : Traced α).Takes length a :=
  ⟨rfl, inside_pure length a⟩

theorem result_bind (h : x.Takes length a) : (x >>= f).result = (f a).result := by
  rw [Traced.result_bind, h.result, Option.bind_some]

/-- A first part that stays inside leaves it to the rest. -/
theorem inside_bind (h : x.Takes length a) :
    (x >>= f).Inside length ↔ (f a).Inside length := by
  rw [Traced.inside_bind, h.result, and_iff_right h.inside]
  simp only [Option.some.injEq, forall_eq']

theorem bind {b : β} (h : x.Takes length a) (hf : (f a).Takes length b) :
    (x >>= f).Takes length b :=
  ⟨h.result_bind.trans hf.result, h.inside_bind.mpr hf.inside⟩

end Takes

end Traced

section Memory
variable {β : Type} (bytes behind : List β)

/-- `buffer[i]` -/
def index (i : Nat) : Traced β := ⟨bytes[i]?, [.index i]⟩

/-- `buffer[start:stop]` -/
def slice (start stop : Nat) : Traced (List β) where
  result :=
    if start ≤ stop ∧ stop ≤ (bytes ++ behind).length then
      some (((bytes ++ behind).take stop).drop start)
    else none
  accesses := [.slice start stop]

/-- `buffer[i] == a && buffer[i+1] == b && ...` -/
def equalsFrom [DecidableEq β] (i : Nat) : List β → Traced Bool
  | [] => pure true
  | a :: rest => do
      if (← index bytes i) = a then equalsFrom (i + 1) rest else pure false

variable {bytes behind}

@[simp] theorem inside_slice {start stop length : Nat} :
    (slice bytes behind start stop).Inside length ↔ start ≤ stop ∧ stop ≤ length := by
  simp [slice, Traced.Inside, Access.Inside]

theorem takes_index {i : Nat} (h : i < bytes.length) :
    (index bytes i).Takes bytes.length bytes[i] where
  result := List.getElem?_eq_getElem h
  inside := by simpa [index, Traced.Inside, Access.Inside] using h

/-- A slice up to an end within the length does not see the memory behind. -/
theorem takes_front {stop : Nat} (h : stop ≤ bytes.length) :
    (slice bytes behind 0 stop).Takes bytes.length (bytes.take stop) where
  result := by
    have hfits : 0 ≤ stop ∧ stop ≤ (bytes ++ behind).length := by
      rw [List.length_append]
      omega
    change (if _ then _ else _) = _
    rw [if_pos hfits, List.drop_zero, List.take_append_of_le_length h]
  inside := inside_slice.mpr ⟨Nat.zero_le stop, h⟩

/-- A comparison within the length takes nothing from behind it. -/
theorem takes_equalsFrom [DecidableEq β] {pattern : List β} {i : Nat}
    (h : i + pattern.length ≤ bytes.length) :
    (equalsFrom bytes i pattern).Takes bytes.length
      (decide ((bytes.drop i).take pattern.length = pattern)) := by
  induction pattern generalizing i with
  | nil => exact .pure _ _
  | cons a rest ih =>
      rw [List.length_cons] at h
      have hi : i < bytes.length := by omega
      rw [List.drop_eq_getElem_cons hi, List.length_cons, List.take_succ_cons]
      refine (takes_index hi).bind ?_
      by_cases hb : bytes[i] = a
      · rw [if_pos hb, hb]
        simpa using ih (i := i + 1) (by omega)
      · have hfalse : decide (bytes[i] :: ((bytes.drop (i + 1)).take rest.length) = a :: rest) =
            false := by simp [hb]
        rw [if_neg hb, hfalse]
        exact .pure _ _

end Memory

end DshClashProxy.Lib.Accesses
