import Mathlib.Data.List.Perm.Basic
import Mathlib.Data.List.Range
import Mathlib.Order.WellFounded
import Mathlib.Tactic.Common

/-!
# Workers that share a cursor

A number of workers take the jobs of a list one after the other from a common cursor, and each
comes back for the next when its own is done. Whatever the order in which jobs finish, no job is
taken twice or left out, and as many are under way as there are workers at most.
-/
namespace DshClashProxy.Lib.Workers

structure Pool (α : Type) where
  /-- The number of jobs. -/
  size : Nat
  cursor : Nat := 0
  /-- The job each worker is at; none when it has returned. -/
  workers : List (Option Nat) := []
  /-- History: the jobs that are done and what came of them, in the order they finished. -/
  log : List (Nat × α) := []

namespace Pool
variable {α : Type}

/-- The job that the next worker takes, if there is one left. -/
def next (p : Pool α) : Option Nat := if p.cursor < p.size then some p.cursor else none

/-- One more worker sets out. -/
def spawn (p : Pool α) : Pool α :=
  { p with cursor := p.cursor + 1, workers := p.workers ++ [p.next] }

/-- The job of a worker is done, and it goes for the next. -/
def finish (p : Pool α) (worker : Nat) (outcome : α) : Option (Pool α) :=
  match p.workers[worker]? with
  | some (some job) =>
      some { p with cursor := p.cursor + 1, workers := p.workers.set worker p.next,
                    log := p.log ++ [(job, outcome)] }
  | _ => none

/-- A pool of this many workers as they set out. -/
def start (size : Nat) : Nat → Pool α
  | 0 => { size }
  | n + 1 => (start size n).spawn

/-- The jobs under way. -/
def inFlight (p : Pool α) : List Nat := p.workers.filterMap id

/-- The jobs that have been taken. -/
def taken (p : Pool α) : List Nat := p.log.map Prod.fst ++ p.inFlight

/-- What holds at any time: the jobs in front of the cursor are those taken, and a worker
returns only when there is no job left. -/
structure Sound (p : Pool α) : Prop where
  taken : p.taken.Perm (List.range (min p.cursor p.size))
  returned : none ∈ p.workers → p.size ≤ p.cursor

/-- The job that the cursor points at, if any, comes on top of those in front of it. -/
theorem range_next (p : Pool α) :
    (p.next.toList ++ List.range (min p.cursor p.size)).Perm
      (List.range (min (p.cursor + 1) p.size)) := by
  unfold next
  by_cases h : p.cursor < p.size
  · have hmin : min (p.cursor + 1) p.size = min p.cursor p.size + 1 := by omega
    have hlast : min p.cursor p.size = p.cursor := by omega
    rw [if_pos h, hmin, List.range_succ, hlast]
    exact List.perm_append_comm
  · have hmin : min (p.cursor + 1) p.size = min p.cursor p.size := by omega
    rw [if_neg h, hmin]
    exact List.Perm.refl _

theorem size_le_of_next {p : Pool α} (h : p.next = none) : p.size ≤ p.cursor := by
  by_contra hlt
  rw [next, if_pos (by omega)] at h
  cases h

theorem sound_spawn {p : Pool α} (h : Sound p) : Sound p.spawn where
  taken := by
    refine List.Perm.trans ?_ p.range_next
    have hflight : p.spawn.inFlight = p.inFlight ++ p.next.toList := by
      rw [inFlight, spawn, List.filterMap_append]
      cases p.next <;> rfl
    have htaken : p.spawn.taken = p.taken ++ p.next.toList := by
      rw [Pool.taken, hflight, ← List.append_assoc]
      rfl
    rw [htaken]
    exact List.perm_append_comm.trans (h.taken.append_left _)
  returned hn := by
    change p.size ≤ p.cursor + 1
    rcases List.mem_append.mp hn with hn | hn
    · exact (h.returned hn).trans (Nat.le_succ _)
    · exact (size_le_of_next (List.mem_singleton.mp hn).symm).trans (Nat.le_succ _)

theorem sound_start (size n : Nat) : Sound (start size n : Pool α) := by
  induction n with
  | zero => exact ⟨by simp [start, Pool.taken, inFlight], nofun⟩
  | succ n ih => exact sound_spawn ih

theorem length_workers_start (size n : Nat) : (start size n : Pool α).workers.length = n := by
  induction n with
  | zero => rfl
  | succ n ih => rw [start, spawn, List.length_append, ih, List.length_singleton]

theorem size_start (size n : Nat) : (start size n : Pool α).size = size := by
  induction n with
  | zero => rfl
  | succ n ih => exact ih

theorem log_start (size n : Nat) : (start size n : Pool α).log = [] := by
  induction n with
  | zero => rfl
  | succ n ih => exact ih

/-- A worker that finishes leaves its job for the log and takes another. -/
theorem finish_inv {p p' : Pool α} {worker : Nat} {outcome : α}
    (h : p.finish worker outcome = some p') :
    ∃ job before after, p.workers = before ++ some job :: after ∧
      p' = { p with cursor := p.cursor + 1, workers := before ++ p.next :: after,
                    log := p.log ++ [(job, outcome)] } := by
  unfold finish at h
  split at h
  · next job hw =>
      obtain ⟨hlt, hget⟩ := List.getElem?_eq_some_iff.mp hw
      have hsplit : p.workers =
          p.workers.take worker ++ some job :: p.workers.drop (worker + 1) := by
        rw [← hget, ← List.drop_eq_getElem_cons hlt, List.take_append_drop]
      refine ⟨job, _, _, hsplit, ?_⟩
      rw [List.set_eq_take_append_cons_drop, if_pos hlt] at h
      exact (Option.some.inj h).symm
  · cases h

theorem sound_finish {p p' : Pool α} (hp : Sound p) {worker : Nat} {outcome : α}
    (h : p.finish worker outcome = some p') : Sound p' := by
  obtain ⟨job, before, after, hw, rfl⟩ := finish_inv h
  constructor
  · refine List.Perm.trans ?_ p.range_next
    refine List.Perm.trans ?_ (hp.taken.append_left _)
    have hflight : p.inFlight = before.filterMap id ++ job :: after.filterMap id := by
      rw [inFlight, hw, List.filterMap_append]
      rfl
    have hnext : (before ++ p.next :: after).filterMap id =
        before.filterMap id ++ (p.next.toList ++ after.filterMap id) := by
      rw [List.filterMap_append]
      cases p.next <;> rfl
    change ((p.log ++ [(job, outcome)]).map Prod.fst ++
      (before ++ p.next :: after).filterMap id).Perm (p.next.toList ++ (_ ++ p.inFlight))
    rw [hnext, hflight, List.map_append, List.map_singleton]
    refine List.perm_iff_count.mpr fun a => ?_
    simp only [List.count_append, List.count_cons, List.count_nil]
    omega
  · intro hn
    change p.size ≤ p.cursor + 1
    rcases List.mem_append.mp hn with hn | hn
    · exact (hp.returned (hw ▸ List.mem_append_left _ hn)).trans (Nat.le_succ _)
    · rcases List.mem_cons.mp hn with hn | hn
      · exact (size_le_of_next hn.symm).trans (Nat.le_succ _)
      · have hmem : none ∈ p.workers := hw ▸ List.mem_append_right _ (.tail _ hn)
        exact (hp.returned hmem).trans (Nat.le_succ _)

theorem length_workers_finish {p p' : Pool α} {worker : Nat} {outcome : α}
    (h : p.finish worker outcome = some p') : p'.workers.length = p.workers.length := by
  obtain ⟨job, before, after, hw, rfl⟩ := finish_inv h
  rw [hw, List.length_append, List.length_append, List.length_cons, List.length_cons]

/-- No more jobs are under way than there are workers. -/
theorem length_inFlight_le (p : Pool α) : p.inFlight.length ≤ p.workers.length :=
  List.length_filterMap_le _ _

/-- No job is taken twice. -/
theorem Sound.nodup_taken {p : Pool α} (h : Sound p) : p.taken.Nodup :=
  h.taken.nodup_iff.mpr List.nodup_range

theorem Sound.length_log_le {p : Pool α} (h : Sound p) : p.log.length ≤ p.size := by
  have hl := h.taken.length_eq
  rw [Pool.taken, List.length_append, List.length_map, List.length_range] at hl
  omega

/-- When all workers have returned, each job has been done once. -/
theorem Sound.done {p : Pool α} (h : Sound p) (hidle : p.inFlight = [])
    (hworkers : p.size ≠ 0 → p.workers ≠ []) :
    (p.log.map Prod.fst).Perm (List.range p.size) := by
  have ht := h.taken
  rw [Pool.taken, hidle, List.append_nil] at ht
  by_cases h0 : p.size = 0
  · rw [h0, Nat.min_zero] at ht
    rwa [h0]
  · obtain ⟨w, rest, hw⟩ := List.exists_cons_of_ne_nil (hworkers h0)
    have hreturned : none ∈ p.workers := by
      rw [inFlight, List.filterMap_eq_nil_iff] at hidle
      have hnone : w = none := hidle w (hw ▸ List.mem_cons_self)
      rw [hw, hnone]
      exact List.mem_cons_self
    rwa [Nat.min_eq_right (h.returned hreturned)] at ht

/-- Where a job is under way, its worker can finish it with any outcome. -/
theorem exists_finish {p : Pool α} {job : Nat} (h : job ∈ p.inFlight) :
    ∃ worker, p.workers[worker]? = some (some job) ∧
      ∀ outcome, ∃ p', p.finish worker outcome = some p' := by
  obtain ⟨w, hw, hid⟩ := List.mem_filterMap.mp h
  obtain rfl : w = some job := hid
  obtain ⟨worker, hlt, hget⟩ := List.getElem_of_mem hw
  have hworker : p.workers[worker]? = some (some job) := by
    rw [List.getElem?_eq_getElem hlt, hget]
  refine ⟨worker, hworker, fun outcome => ⟨{ p with
    cursor := p.cursor + 1, workers := p.workers.set worker p.next,
    log := p.log ++ [(job, outcome)] }, ?_⟩⟩
  rw [finish, hworker]

/-- Each step finishes a job, so the workers come to an end. -/
theorem length_log_finish {p p' : Pool α} {worker : Nat} {outcome : α}
    (h : p.finish worker outcome = some p') :
    p'.log.length = p.log.length + 1 ∧ p'.size = p.size := by
  obtain ⟨job, before, after, hw, rfl⟩ := finish_inv h
  exact ⟨List.length_append, rfl⟩

end Pool

end DshClashProxy.Lib.Workers
