import Mathlib.Data.List.Count
import Mathlib.Logic.Function.Basic
import Mathlib.Logic.Relation
import DshClashProxy.Js.Text
import DshClashProxy.Lib.Workers

/-!
# Testing all latencies

`testAllLatencies` lets a bounded number of workers share a cursor over the list. Each index is
tested once, and the results have the names as their keys. The results are a plain object,
though, so an assignment to `__proto__` sets the object's prototype instead of a key.
-/
namespace DshClashProxy.Core.LatencySweep

open Js
open Lib.Workers (Pool)
open Relation (ReflTransGen)

/-- What a test resolves to: a delay, or null. -/
abbrev Delay := Option Int

def proto : Text := "__proto__".toList

/-- An object literal that is assigned to by name. -/
structure PlainObject where
  own : Text → Option Delay := fun _ => none
  /-- The prototype is still `Object.prototype`, which has the setter for `__proto__`. -/
  inherits : Bool := true

/-- `object[name] = value`. The inherited setter takes null for a prototype and ignores a
number. -/
def PlainObject.assign (o : PlainObject) (name : Text) (value : Delay) : PlainObject :=
  if name = proto ∧ o.inherits = true then
    match value with
    | none => { o with inherits := false }
    | some _ => o
  else { o with own := Function.update o.own name (some value) }

/-- A call under way. Between two awaits of a worker nothing else runs. -/
structure Sweep where
  pool : Pool Delay
  results : PlainObject := {}

section Call
-- `nodes` are the names under which the node map has a node at some time during the call.
variable (nodes list : List Text)

/-- `#testOne` resolves to null where there is no node. -/
def Resolves (name : Text) (value : Delay) : Prop := name ∉ nodes → value = none

/-- The call up to its first await: as many workers as the list has use for. -/
def testAllLatencies (concurrency : Nat) : Sweep :=
  { pool := Pool.start list.length (min concurrency list.length) }

/-- A test resolves, and its worker stores the result and goes for the next index. -/
def Step (s s' : Sweep) : Prop :=
  ∃ worker value, s.pool.finish worker value = some s'.pool ∧
    ∃ index name, s.pool.workers[worker]? = some (some index) ∧ list[index]? = some name ∧
      Resolves nodes name value ∧ s'.results = s.results.assign name value

/-- The call resolves when all workers have returned. -/
def Resolved (s : Sweep) : Prop := s.pool.inFlight = []

/-- The tests that are done, by name, in the order they resolved. -/
def tested (s : Sweep) : List (Text × Delay) :=
  s.pool.log.filterMap fun e => list[e.1]?.map fun name => (name, e.2)

/-- The outcome of the test of a name that resolved last. -/
def lastOutcome (outcomes : List (Text × Delay)) (name : Text) : Option Delay :=
  ((outcomes.filter (·.1 = name)).getLast?).map Prod.snd

/-- What holds at any time, and what holds when the call resolves. -/
structure Covers (concurrency : Nat) (s : Sweep) : Prop where
  once : s.pool.taken.Nodup ∧ ∀ index ∈ s.pool.taken, index < list.length
  bounded : s.pool.inFlight.length ≤ concurrency
  all : Resolved s → (s.pool.log.map Prod.fst).Perm (List.range list.length)
  keys : Resolved s → ∀ name, s.results.own name ≠ none ↔ name ∈ list
  values : Resolved s → ∀ name ∈ list,
    s.results.own name = lastOutcome (tested list s) name

/-- The workers come to an end, and the call covers the list whatever order the tests resolve
in. -/
def Holds (concurrency : Nat) : Prop :=
  Acc (fun s' s => Step nodes list s s') (testAllLatencies list concurrency) ∧
  ∀ s, ReflTransGen (Step nodes list) (testAllLatencies list concurrency) s →
    Covers list concurrency s

end Call

/-! ## The results as a plain object -/

@[simp] theorem lastOutcome_nil (name : Text) : lastOutcome [] name = none := rfl

theorem lastOutcome_snoc (outcomes : List (Text × Delay)) (e : Text × Delay) (name : Text) :
    lastOutcome (outcomes ++ [e]) name =
      if e.1 = name then some e.2 else lastOutcome outcomes name := by
  by_cases h : e.1 = name <;> simp [lastOutcome, List.filter_append, h]

theorem lastOutcome_ne_none (outcomes : List (Text × Delay)) (name : Text) :
    lastOutcome outcomes name ≠ none ↔ name ∈ outcomes.map Prod.fst := by
  induction outcomes using List.reverseRecOn with
  | nil => simp
  | append_singleton outcomes e ih =>
      rw [lastOutcome_snoc, List.map_append, List.mem_append, ← ih]
      by_cases h : e.1 = name
      · simp [h]
      · simp [h, Ne.symm h]

/-- The results after these tests. -/
def resultsOf (outcomes : List (Text × Delay)) : PlainObject :=
  outcomes.foldl (fun o e => o.assign e.1 e.2) {}

theorem resultsOf_snoc (outcomes : List (Text × Delay)) (e : Text × Delay) :
    resultsOf (outcomes ++ [e]) = (resultsOf outcomes).assign e.1 e.2 := by
  rw [resultsOf, List.foldl_append]
  rfl

theorem assign_own_of_ne {o : PlainObject} {name : Text} {value : Delay} {other : Text}
    (h : name ≠ proto) :
    (o.assign name value).own other = if name = other then some value else o.own other := by
  have hplain : ¬ (name = proto ∧ o.inherits = true) := fun hc => h hc.1
  have hassign : o.assign name value =
      { o with own := Function.update o.own name (some value) } := if_neg hplain
  rw [hassign]
  exact (Function.update_apply _ _ _ _).trans (if_congr eq_comm rfl rfl)

/-- An assignment to `__proto__` leaves the other keys alone. -/
theorem assign_proto_own {o : PlainObject} {value : Delay} {other : Text} (h : other ≠ proto) :
    (o.assign proto value).own other = o.own other := by
  unfold PlainObject.assign
  split
  · cases value <;> rfl
  · exact Function.update_of_ne h _ _

theorem resultsOf_own {outcomes : List (Text × Delay)} {name : Text} (h : name ≠ proto) :
    (resultsOf outcomes).own name = lastOutcome outcomes name := by
  induction outcomes using List.reverseRecOn with
  | nil => rfl
  | append_singleton outcomes e ih =>
      rw [resultsOf_snoc, lastOutcome_snoc]
      by_cases he : e.1 = proto
      · rw [he, assign_proto_own h, if_neg (Ne.symm h), ih]
      · rw [assign_own_of_ne he, ih]

/-- Numbers for `__proto__` go nowhere. -/
theorem resultsOf_proto_numbers {outcomes : List (Text × Delay)}
    (h : ∀ e ∈ outcomes, e.1 = proto → e.2 ≠ none) :
    (resultsOf outcomes).own proto = none ∧ (resultsOf outcomes).inherits = true := by
  induction outcomes using List.reverseRecOn with
  | nil => exact ⟨rfl, rfl⟩
  | append_singleton outcomes e ih =>
      obtain ⟨hown, hinherits⟩ := ih fun d hd => h d (List.mem_append_left _ hd)
      have he := h e (List.mem_append_right _ List.mem_cons_self)
      rw [resultsOf_snoc]
      by_cases hname : e.1 = proto
      · obtain ⟨delay, hdelay⟩ := Option.ne_none_iff_exists'.mp (he hname)
        simp [PlainObject.assign, hname, hinherits, hdelay, hown]
      · simp [PlainObject.assign, hname, hown, hinherits, Function.update_of_ne (Ne.symm hname)]

/-- The first null for `__proto__` takes the setter away, and from the second on it is a key. -/
theorem resultsOf_proto_nulls {outcomes : List (Text × Delay)}
    (h : ∀ e ∈ outcomes, e.1 = proto → e.2 = none) :
    (resultsOf outcomes).own proto =
      (if 2 ≤ (outcomes.map Prod.fst).count proto then some none else none) ∧
    ((resultsOf outcomes).inherits = true ↔ (outcomes.map Prod.fst).count proto = 0) := by
  induction outcomes using List.reverseRecOn with
  | nil => exact ⟨rfl, by simp [resultsOf]⟩
  | append_singleton outcomes e ih =>
      obtain ⟨hown, hinherits⟩ := ih fun d hd => h d (List.mem_append_left _ hd)
      have he := h e (List.mem_append_right _ List.mem_cons_self)
      rw [resultsOf_snoc, List.map_append, List.count_append]
      by_cases hname : e.1 = proto
      · by_cases h0 : (outcomes.map Prod.fst).count proto = 0
        · have hi := hinherits.mpr h0
          simp [PlainObject.assign, hname, hi, he hname, hown, h0]
        · have hi : ¬ (resultsOf outcomes).inherits = true := fun hc => h0 (hinherits.mp hc)
          have htwo : 2 ≤ (outcomes.map Prod.fst).count proto + 1 := by omega
          simp [PlainObject.assign, hname, hi, he hname, htwo]
      · simp [PlainObject.assign, hname, hown, hinherits, Function.update_of_ne (Ne.symm hname)]

/-! ## The call -/

section Call
variable {nodes list : List Text}

/-- What every step keeps. -/
structure Inv (nodes list : List Text) (concurrency : Nat) (s : Sweep) : Prop where
  sound : s.pool.Sound
  size : s.pool.size = list.length
  workers : s.pool.workers.length = min concurrency list.length
  results : s.results = resultsOf (tested list s)
  resolves : ∀ e ∈ tested list s, Resolves nodes e.1 e.2

theorem inv_start (concurrency : Nat) :
    Inv nodes list concurrency (testAllLatencies list concurrency) where
  sound := Pool.sound_start _ _
  size := Pool.size_start _ _
  workers := Pool.length_workers_start _ _
  results := by rw [tested, testAllLatencies, Pool.log_start]; rfl
  resolves := by rw [tested, testAllLatencies, Pool.log_start]; exact nofun

/-- A step adds the outcome that it stores. -/
theorem tested_step {s s' : Sweep} (h : Step nodes list s s') :
    ∃ name value, tested list s' = tested list s ++ [(name, value)] ∧
      Resolves nodes name value ∧ s'.results = s.results.assign name value := by
  obtain ⟨worker, value, hfinish, index, name, hw, hname, hresolves, hresults⟩ := h
  refine ⟨name, value, ?_, hresolves, hresults⟩
  have hlog : s'.pool.log = s.pool.log ++ [(index, value)] := by
    rw [Pool.finish, hw] at hfinish
    rw [← Option.some.inj hfinish]
  rw [tested, hlog, List.filterMap_append]
  simp [tested, hname]

theorem inv_step {concurrency : Nat} {s s' : Sweep} (hs : Inv nodes list concurrency s)
    (h : Step nodes list s s') : Inv nodes list concurrency s' := by
  obtain ⟨name, value, htested, hresolves, hresults⟩ := tested_step h
  obtain ⟨worker, value', hfinish, -⟩ := h
  refine ⟨Pool.sound_finish hs.sound hfinish, ?_, ?_, ?_, ?_⟩
  · exact (Pool.length_log_finish hfinish).2.trans hs.size
  · exact (Pool.length_workers_finish hfinish).trans hs.workers
  · rw [hresults, hs.results, htested, resultsOf_snoc]
  · rw [htested]
    intro e he
    rcases List.mem_append.mp he with he | he
    · exact hs.resolves e he
    · rw [List.mem_singleton.mp he]
      exact hresolves

theorem inv_run {concurrency : Nat} {s : Sweep}
    (h : ReflTransGen (Step nodes list) (testAllLatencies list concurrency) s) :
    Inv nodes list concurrency s := by
  induction h with
  | refl => exact inv_start concurrency
  | tail _ hstep ih => exact inv_step ih hstep

/-- Every step does one of the tests, so there are no more steps than tests. -/
theorem terminates {concurrency : Nat} {s : Sweep} (hs : Inv nodes list concurrency s) :
    Acc (fun s' s => Step nodes list s s') s := by
  induction hn : list.length - s.pool.log.length using Nat.strong_induction_on generalizing s with
  | _ n ih =>
      refine Acc.intro s fun s' hstep => ?_
      have hs' := inv_step hs hstep
      obtain ⟨worker, value, hfinish, -⟩ := hstep
      have hlog := (Pool.length_log_finish hfinish).1
      have hle := hs'.sound.length_log_le
      rw [hs'.size] at hle
      exact ih _ (by omega) hs' rfl

theorem filterMap_range_getElem? (list : List Text) :
    (List.range list.length).filterMap (list[·]?) = list := by
  induction list using List.reverseRecOn with
  | nil => rfl
  | append_singleton list name ih =>
      rw [List.length_append, List.length_singleton, List.range_succ, List.filterMap_append]
      have hfront : (List.range list.length).filterMap ((list ++ [name])[·]?) =
          (List.range list.length).filterMap (list[·]?) := by
        refine List.filterMap_congr fun index hi => ?_
        exact List.getElem?_append_left (List.mem_range.mp hi)
      rw [hfront, ih]
      simp

/-- When the call resolves, the tests done are those of the list. -/
theorem tested_perm {concurrency : Nat} (hc : 1 ≤ concurrency) {s : Sweep}
    (hs : Inv nodes list concurrency s) (hr : Resolved s) :
    (s.pool.log.map Prod.fst).Perm (List.range list.length) ∧
      ((tested list s).map Prod.fst).Perm list := by
  have hworkers : s.pool.size ≠ 0 → s.pool.workers ≠ [] := by
    rw [hs.size]
    intro hne hnil
    have hlength := hs.workers
    rw [hnil, List.length_nil] at hlength
    omega
  have hdone := hs.sound.done hr hworkers
  rw [hs.size] at hdone
  refine ⟨hdone, ?_⟩
  have hnames := hdone.filterMap (list[·]?)
  rw [filterMap_range_getElem?, List.filterMap_map] at hnames
  have htested : (tested list s).map Prod.fst =
      s.pool.log.filterMap ((list[·]?) ∘ Prod.fst) := by
    rw [tested, List.map_filterMap]
    refine List.filterMap_congr fun e _ => ?_
    change ((list[e.1]?).map fun name => (name, e.2)).map Prod.fst = list[e.1]?
    cases list[e.1]? <;> rfl
  rwa [htested]

/-- What the condition says: `__proto__` can still become a key. -/
def ProtoFits (nodes list : List Text) : Prop :=
  proto ∈ list → proto ∉ nodes ∧ 2 ≤ list.count proto

theorem covers_of_inv {concurrency : Nat} (hc : 1 ≤ concurrency)
    (hfits : ProtoFits nodes list) {s : Sweep} (hs : Inv nodes list concurrency s) :
    Covers list concurrency s := by
  -- Each name has the outcome of its last test.
  have hvalues : Resolved s → ∀ name,
      s.results.own name = lastOutcome (tested list s) name := by
    intro hr name
    have hperm := (tested_perm hc hs hr).2
    rw [hs.results]
    by_cases hname : name = proto
    · subst hname
      by_cases hin : proto ∈ list
      · obtain ⟨hnode, htwo⟩ := hfits hin
        have hnull : ∀ e ∈ tested list s, e.1 = proto → e.2 = none := fun e he hproto =>
          hs.resolves e he (hproto ▸ hnode)
        rw [(resultsOf_proto_nulls hnull).1, hperm.count_eq, if_pos htwo]
        have hlast := (lastOutcome_ne_none (tested list s) proto).mpr (hperm.mem_iff.mpr hin)
        obtain ⟨value, hvalue⟩ := Option.ne_none_iff_exists'.mp hlast
        obtain ⟨e, he, rfl⟩ := Option.map_eq_some_iff.mp hvalue
        have hmem := List.mem_filter.mp (List.mem_of_getLast? he)
        rw [hvalue, hnull e hmem.1 (of_decide_eq_true hmem.2)]
      · have hnot : proto ∉ (tested list s).map Prod.fst := fun h => hin (hperm.mem_iff.mp h)
        have hnumbers : ∀ e ∈ tested list s, e.1 = proto → e.2 ≠ none := fun e he hproto =>
          absurd (hproto ▸ List.mem_map_of_mem he) hnot
        rw [(resultsOf_proto_numbers hnumbers).1]
        by_contra hne
        exact hnot ((lastOutcome_ne_none _ _).mp (Ne.symm hne))
    · exact resultsOf_own hname
  refine ⟨⟨hs.sound.nodup_taken, fun index hi => ?_⟩, ?_, fun hr => (tested_perm hc hs hr).1,
    fun hr name => ?_, fun hr name _ => hvalues hr name⟩
  · have hlt := List.mem_range.mp (hs.sound.taken.mem_iff.mp hi)
    rw [hs.size] at hlt
    omega
  · have hflight := s.pool.length_inFlight_le
    rw [hs.workers] at hflight
    omega
  · rw [hvalues hr, lastOutcome_ne_none]
    exact (tested_perm hc hs hr).2.mem_iff

/-- Some run lets every test resolve to what is chosen for its name. -/
theorem exists_run {concurrency : Nat} {f : Text → Delay}
    (hf : ∀ name, Resolves nodes name (f name)) {s : Sweep} (hs : Inv nodes list concurrency s)
    (he : ∀ e ∈ tested list s, e.2 = f e.1) :
    ∃ s', ReflTransGen (Step nodes list) s s' ∧ Resolved s' ∧
      ∀ e ∈ tested list s', e.2 = f e.1 := by
  induction terminates hs with
  | intro s _ ih =>
      by_cases hr : Resolved s
      · exact ⟨s, .refl, hr, he⟩
      · obtain ⟨index, hindex⟩ := List.exists_mem_of_ne_nil _ hr
        obtain ⟨worker, hw, hfinish⟩ := Pool.exists_finish hindex
        have hlt := List.mem_range.mp
          (hs.sound.taken.mem_iff.mp (List.mem_append_right _ hindex))
        rw [hs.size] at hlt
        have hname : list[index]? = some list[index] := List.getElem?_eq_getElem (by omega)
        obtain ⟨pool, hpool⟩ := hfinish (f list[index])
        let s' : Sweep := ⟨pool, s.results.assign list[index] (f list[index])⟩
        have hstep : Step nodes list s s' :=
          ⟨worker, f list[index], hpool, index, list[index], hw, hname, hf _, rfl⟩
        have hlog : pool.log = s.pool.log ++ [(index, f list[index])] := by
          rw [Pool.finish, hw] at hpool
          rw [← Option.some.inj hpool]
        have he' : ∀ e ∈ tested list s', e.2 = f e.1 := by
          have htested : tested list s' = tested list s ++ [(list[index], f list[index])] := by
            rw [tested, hlog, List.filterMap_append]
            simp [tested, hname]
          rw [htested]
          intro e hmem
          rcases List.mem_append.mp hmem with hmem | hmem
          · exact he e hmem
          · rw [List.mem_singleton.mp hmem]
        obtain ⟨final, hrun, hfinal⟩ := ih s' hstep (inv_step hs hstep) he'
        exact ⟨final, .head hstep hrun, hfinal⟩

/-- Where `__proto__` does not fit, the delays of the nodes can be such that it is no key. -/
theorem proto_lost {concurrency : Nat} (hc : 1 ≤ concurrency)
    (h : ¬ ProtoFits nodes list) :
    proto ∈ list ∧ ∃ s, ReflTransGen (Step nodes list) (testAllLatencies list concurrency) s ∧
      Resolved s ∧ s.results.own proto = none := by
  have hin : proto ∈ list := by
    by_contra hnot
    exact h fun hin => absurd hin hnot
  let f : Text → Delay := fun name => if name ∈ nodes then some 5 else none
  have hf : ∀ name, Resolves nodes name (f name) := fun name hnot => if_neg hnot
  have hstart : tested list (testAllLatencies list concurrency) = [] := by
    rw [tested, testAllLatencies, Pool.log_start]
    rfl
  obtain ⟨s, hrun, hr, hout⟩ := exists_run hf
    (inv_start concurrency) (by rw [hstart]; exact nofun)
  refine ⟨hin, s, hrun, hr, ?_⟩
  rw [(inv_run hrun).results]
  by_cases hnode : proto ∈ nodes
  · refine (resultsOf_proto_numbers fun e he hproto => ?_).1
    rw [hout e he, hproto, show f proto = some 5 from if_pos hnode]
    exact Option.some_ne_none _
  · have hone : ¬ 2 ≤ list.count proto := fun htwo => h fun _ => ⟨hnode, htwo⟩
    rw [(resultsOf_proto_nulls fun e he hproto => ?_).1,
      (tested_perm hc (inv_run hrun) hr).2.count_eq, if_neg hone]
    rw [hout e he, hproto]
    exact if_neg hnode

/-- The call covers the list in every order exactly when `__proto__` does not occur in it, or
occurs at least twice while it names no node. -/
theorem testAllLatencies_covers_iff (nodes list : List Text) {concurrency : Nat}
    (hc : 1 ≤ concurrency) :
    Holds nodes list concurrency ↔
      (proto ∈ list → proto ∉ nodes ∧ 2 ≤ list.count proto) := by
  constructor
  · rintro ⟨-, hcovers⟩
    by_contra h
    obtain ⟨hin, s, hrun, hr, hown⟩ := proto_lost hc h
    exact ((hcovers s hrun).keys hr proto).mpr hin hown
  · exact fun hfits => ⟨terminates (inv_start concurrency), fun s hrun =>
      covers_of_inv hc hfits (inv_run hrun)⟩

end Call

/-- One worker for three tests, the first and the last of them of the same node. -/
theorem three_tests_covered : Holds ["a".toList] ["a".toList, "b".toList, "a".toList] 1 :=
  (testAllLatencies_covers_iff _ _ (Nat.le_refl 1)).mpr (by decide)

/-- The call on a node of this name, after its test has taken 5 milliseconds. -/
def protoTested : Sweep :=
  { pool := { size := 1, cursor := 2, workers := [none], log := [(0, some 5)] }, results := {} }

theorem proto_uncovered : ¬ Holds [proto] [proto] 8 := by
  intro h
  have hstep : Step [proto] [proto] (testAllLatencies [proto] 8) protoTested :=
    ⟨0, some 5, rfl, 0, proto, rfl, rfl, fun hnot => absurd List.mem_cons_self hnot, rfl⟩
  exact ((h.2 protoTested (.single hstep)).keys rfl proto).mpr List.mem_cons_self rfl

end DshClashProxy.Core.LatencySweep
