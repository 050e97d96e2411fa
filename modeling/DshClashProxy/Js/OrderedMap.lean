import Mathlib.Data.List.Nodup

/-!
# Maps

A map keeps its entries in the order in which their keys were first set. Setting a key again
replaces its value where it stands.
-/
namespace DshClashProxy.Js

structure OrderedMap (K V : Type) where
  entries : List (K × V) := []
  nodup : (entries.map Prod.fst).Nodup := by exact List.nodup_nil

namespace OrderedMap
variable {K V : Type} [DecidableEq K]

def keys (m : OrderedMap K V) : List K := m.entries.map Prod.fst

def has (m : OrderedMap K V) (key : K) : Bool := decide (key ∈ m.keys)

def get (m : OrderedMap K V) (key : K) : Option V :=
  (m.entries.find? (·.1 = key)).map Prod.snd

/-- The entries after a set. -/
def put (key : K) (value : V) : List (K × V) → List (K × V)
  | [] => [(key, value)]
  | e :: rest => if e.1 = key then (key, value) :: rest else e :: put key value rest

/-- A new key comes last. -/
theorem keys_put (key : K) (value : V) (entries : List (K × V)) :
    (put key value entries).map Prod.fst =
      if key ∈ entries.map Prod.fst then entries.map Prod.fst
      else entries.map Prod.fst ++ [key] := by
  induction entries with
  | nil => rfl
  | cons e rest ih =>
      by_cases he : e.1 = key
      · simp [put, he]
      · have hne : key ≠ e.1 := Ne.symm he
        simp only [put, if_neg he, List.map_cons, ih, List.mem_cons, hne, false_or]
        split <;> rfl

theorem nodup_put {key : K} {value : V} {entries : List (K × V)}
    (h : (entries.map Prod.fst).Nodup) : ((put key value entries).map Prod.fst).Nodup := by
  rw [keys_put]
  split
  · exact h
  · next hnew => exact List.nodup_append.mpr ⟨h, List.nodup_singleton key, fun k hk k' hk' he =>
      hnew (List.mem_singleton.mp hk' ▸ he ▸ hk)⟩

theorem mem_put {key : K} {value : V} {entries : List (K × V)} {e : K × V}
    (h : e ∈ put key value entries) : e = (key, value) ∨ e ∈ entries := by
  induction entries with
  | nil => exact .inl (List.mem_singleton.mp h)
  | cons d rest ih =>
      rw [put] at h
      split at h
      · exact (List.mem_cons.mp h).imp_right (List.mem_cons_of_mem d)
      · rcases List.mem_cons.mp h with rfl | h
        · exact .inr List.mem_cons_self
        · exact (ih h).imp_right (List.mem_cons_of_mem d)

/-- The other keys keep their values. -/
theorem find_put {key k : K} (hk : k ≠ key) (value : V) (entries : List (K × V)) :
    (put key value entries).find? (·.1 = k) = entries.find? (·.1 = k) := by
  induction entries with
  | nil => simp [put, Ne.symm hk]
  | cons e rest ih =>
      rw [put]
      split
      · next he =>
          subst he
          simp [Ne.symm hk]
      · rw [List.find?_cons, List.find?_cons, ih]

def set (m : OrderedMap K V) (key : K) (value : V) : OrderedMap K V :=
  ⟨put key value m.entries, nodup_put m.nodup⟩

theorem keys_set (m : OrderedMap K V) (key : K) (value : V) :
    (m.set key value).keys = if key ∈ m.keys then m.keys else m.keys ++ [key] :=
  keys_put key value m.entries

/-- A lookup of a key gives the value it stands with. -/
theorem get_of_mem {m : OrderedMap K V} {e : K × V} (h : e ∈ m.entries) :
    m.get e.1 = some e.2 := by
  have hfind : m.entries.find? (·.1 = e.1) = some e := by
    obtain ⟨before, after, hsplit⟩ := List.append_of_mem h
    have hnodup := m.nodup
    rw [hsplit, List.map_append, List.map_cons] at hnodup
    have hnot : e.1 ∉ before.map Prod.fst := fun hm =>
      (List.nodup_append.mp hnodup).2.2 _ hm _ List.mem_cons_self rfl
    have hhead : (e :: after).find? (·.1 = e.1) = some e :=
      List.find?_cons_of_pos (decide_eq_true (Eq.refl e.1))
    rw [hsplit, List.find?_append, List.find?_eq_none.mpr, Option.none_or, hhead]
    intro d hd hc
    exact hnot (of_decide_eq_true hc ▸ List.mem_map_of_mem hd)
  rw [get, hfind]
  rfl

/-- Filtering the keys by their values filters the entries. -/
theorem filter_keys (m : OrderedMap K V) (test : Option V → Bool) :
    (m.keys.filter fun key => test (m.get key)) =
      (m.entries.filter fun e => test (some e.2)).map Prod.fst := by
  rw [keys, List.filter_map]
  refine congrArg _ (List.filter_congr fun e he => ?_)
  rw [Function.comp_apply, get_of_mem he]

end OrderedMap

end DshClashProxy.Js
