import DshClashProxy.Lib.Async
import Mathlib.Logic.Relation
import Mathlib.Tactic.Tauto

/-!
# Operations queued one behind another

A machine runs queued operations in the order they were queued, one at a time. Calls from
outside arrive at any moment, change the flags and queue operations. The steps of the
running operation are separate from the calls, and the answer to a request is separate
from the step that goes on with it, so a call can arrive between any two of them.

`Sound` is the invariant rule: operations that keep an invariant, as weakest
preconditions, keep it along every run. `sound_handover` lets an operation exchange one
invariant for another when it settles. `drain` is the progress rule: a queue of programs
that wait for no other operation can be run to the end. `blocked_runs` is its opposite: an
operation that waits for one queued behind it waits for ever.
-/
namespace DshClashProxy.Lib.Serial

open Lib.Async
open Relation (ReflTransGen)

structure System (I : Interface) extends Answers I where
  body : I.Op → Prog I Unit
  Call : Type
  /-- A call may need something to be there, such as the timer that makes it. -/
  enabled : Call → I.State → Prop
  /-- What a call does at once: the new flags, and the operations it queues. -/
  call : Call → I.Flags → I.Flags × List I.Op

/-- Where a started operation stands between two of its steps. -/
inductive Susp (I : Interface) where
  | issued (q : I.Request) (k : I.Response q → Prog I Unit)
  | ready (p : Prog I Unit)
  | joining (id : Nat) (k : Except I.Error Unit → Prog I Unit)

structure Task (I : Interface) where
  id : Nat
  op : I.Op
  susp : Susp I

structure Settled (I : Interface) where
  id : Nat
  op : I.Op
  result : Except I.Error Unit

structure Machine (I : Interface) where
  shared : I.State
  flags : I.Flags
  /-- Queued operations in order, each with the identity of its promise. -/
  pending : List (Nat × I.Op) := []
  running : Option (Task I) := none
  /-- Operations that have run, latest first. -/
  settled : List (Settled I) := []
  fresh : Nat := 0

namespace Machine
variable {I : Interface}

def enqueue (m : Machine I) (o : I.Op) : Machine I :=
  { m with pending := m.pending ++ [(m.fresh, o)], fresh := m.fresh + 1 }

def finish (m : Machine I) (id : Nat) (o : I.Op) (r : Except I.Error Unit) : Machine I :=
  { m with running := none, settled := ⟨id, o, r⟩ :: m.settled }

/-- What a call does to the machine. -/
def receive (S : System I) (c : S.Call) (m : Machine I) : Machine I :=
  (S.call c m.flags).2.foldl enqueue { m with flags := (S.call c m.flags).1 }

/-- Run a program to its next await, or to its end. -/
def advance (id : Nat) (o : I.Op) : Prog I Unit → Machine I → Machine I
  | .ret _, m => m.finish id o (.ok ())
  | .fail e, m => m.finish id o (.error e)
  | .get k, m => advance id o (k m.shared) m
  | .set s k, m => advance id o k { m with shared := s }
  | .ask k, m => advance id o (k m.flags) m
  | .await q k, m => { m with running := some ⟨id, o, .issued q k⟩ }
  | .queue o' k, m => advance id o (k m.fresh) (m.enqueue o')
  | .join j k, m => { m with running := some ⟨id, o, .joining j k⟩ }

end Machine

inductive Label (Call : Type) where
  | call (c : Call)
  | begin
  | answer
  | resume
  | joined

/-- The labels of the steps the machine takes by itself. -/
def Label.internal {Call : Type} : Label Call → Prop
  | .call _ => False
  | _ => True

open Machine in
inductive Step {I : Interface} (S : System I) : Machine I → Label S.Call → Machine I → Prop where
  | call {m : Machine I} (c : S.Call) (he : S.enabled c m.shared) :
      Step S m (.call c) (m.receive S c)
  | begin {m : Machine I} {id : Nat} {o : I.Op} {rest : List (Nat × I.Op)}
      (hr : m.running = none) (hp : m.pending = (id, o) :: rest) :
      Step S m .begin (advance id o (S.body o) { m with pending := rest })
  | answer {m : Machine I} {id : Nat} {o : I.Op} {q : I.Request}
      {k : I.Response q → Prog I Unit} (hr : m.running = some ⟨id, o, .issued q k⟩)
      (r : I.Response q) (ha : S.allowed q m.shared r) :
      Step S m .answer
        { m with shared := S.effect q r m.shared, running := some ⟨id, o, .ready (k r)⟩ }
  | resume {m : Machine I} {id : Nat} {o : I.Op} {p : Prog I Unit}
      (hr : m.running = some ⟨id, o, .ready p⟩) : Step S m .resume (advance id o p m)
  | joined {m : Machine I} {id : Nat} {o : I.Op} {j : Nat}
      {k : Except I.Error Unit → Prog I Unit} (hr : m.running = some ⟨id, o, .joining j k⟩)
      {t : Settled I} (ht : t ∈ m.settled) (hj : t.id = j) :
      Step S m .joined { m with running := some ⟨id, o, .ready (k t.result)⟩ }

/-- The system whose requests are answered only as `P` allows. -/
def System.answering {I : Interface} (S : System I)
    (P : (q : I.Request) → I.State → I.Response q → Prop) : System I :=
  { S with allowed := fun q s r => S.allowed q s r ∧ P q s r }

/-- Runs whose every step meets a condition on the machine before it, the step's label and
the machine after it. -/
def RunsIf {I : Interface} (S : System I)
    (cond : Machine I → Label S.Call → Machine I → Prop) : Machine I → Machine I → Prop :=
  ReflTransGen fun m m' => ∃ l, Step S m l m' ∧ cond m l m'

def Runs {I : Interface} (S : System I) : Machine I → Machine I → Prop :=
  RunsIf S fun _ _ _ => True

/-- The running operation waits for an operation that has not started. -/
def AwaitsPending {I : Interface} (m : Machine I) : Prop :=
  ∃ id o j k, m.running = some ⟨id, o, .joining j k⟩ ∧ j ∈ m.pending.map Prod.fst

variable {I : Interface} {S : System I}

theorem RunsIf.mono {cond cond' : Machine I → Label S.Call → Machine I → Prop}
    {m m' : Machine I} (hc : ∀ m l m', Step S m l m' → cond m l m' → cond' m l m')
    (h : RunsIf S cond m m') : RunsIf S cond' m m' := by
  induction h with
  | refl => exact .refl
  | tail _ hl ih =>
      obtain ⟨l, hs, hcond⟩ := hl
      exact ih.tail ⟨l, hs, hc _ _ _ hs hcond⟩

theorem RunsIf.trans {cond : Machine I → Label S.Call → Machine I → Prop} {a b c : Machine I}
    (hab : RunsIf S cond a b) (hbc : RunsIf S cond b c) : RunsIf S cond a c :=
  ReflTransGen.trans hab hbc

/-- What the steps of a run keep can be added to its condition. -/
theorem RunsIf.keeping {cond : Machine I → Label S.Call → Machine I → Prop}
    {P : Machine I → Prop} {m m' : Machine I}
    (hP : ∀ m l m', Step S m l m' → cond m l m' → P m → P m') (hm : P m)
    (h : RunsIf S cond m m') : RunsIf S (fun m l m' => cond m l m' ∧ P m) m m' ∧ P m' := by
  induction h with
  | refl => exact ⟨.refl, hm⟩
  | tail _ hl ih =>
      obtain ⟨l, hs, hcond⟩ := hl
      exact ⟨ih.1.tail ⟨l, hs, hcond, ih.2⟩, hP _ _ _ hs hcond ih.2⟩

theorem Step.of_answering {P : (q : I.Request) → I.State → I.Response q → Prop}
    {m m' : Machine I} {l : Label (S.answering P).Call} (h : Step (S.answering P) m l m') :
    Step S m l m' := by
  cases h with
  | call c he => exact .call (S := S) c he
  | begin hr hp => exact .begin hr hp
  | answer hr r ha => exact .answer (S := S) hr r ha.1
  | resume hr => exact .resume hr
  | joined hr ht hj => exact .joined hr ht hj

/-- A step whose answer, where it is one, is also among those that `Q` allows. -/
theorem Step.answering {P Q : (q : I.Request) → I.State → I.Response q → Prop}
    {m m' : Machine I} {l : Label (S.answering P).Call} (h : Step (S.answering P) m l m')
    (hQ : l = .answer → ∀ q r, m'.shared = S.effect q r m.shared → P q m.shared r →
      Q q m.shared r) : Step (S.answering Q) m l m' := by
  cases h with
  | call c he => exact .call (S := S.answering Q) c he
  | begin hr hp => exact .begin (S := S.answering Q) hr hp
  | answer hr r ha =>
      exact .answer (S := S.answering Q) hr r ⟨ha.1, hQ rfl _ r rfl ha.2⟩
  | resume hr => exact .resume (S := S.answering Q) hr
  | joined hr ht hj => exact .joined (S := S.answering Q) hr ht hj

/-- A run is one of the system whose answers are restricted to what they are anyway. -/
theorem RunsIf.answering {P : (q : I.Request) → I.State → I.Response q → Prop}
    {cond : Machine I → Label S.Call → Machine I → Prop} {m m' : Machine I}
    (hP : ∀ q s r, S.allowed q s r → P q s r) (h : RunsIf S cond m m') :
    RunsIf (S.answering P) cond m m' := by
  induction h with
  | refl => exact .refl
  | tail _ hl ih =>
      obtain ⟨l, hs, hcond⟩ := hl
      refine ih.tail ⟨l, ?_, hcond⟩
      cases hs with
      | call c he => exact .call (S := S.answering P) c he
      | begin hr hp => exact .begin (S := S.answering P) hr hp
      | answer hr r ha => exact .answer (S := S.answering P) hr r ⟨ha, hP _ _ _ ha⟩
      | resume hr => exact .resume (S := S.answering P) hr
      | joined hr ht hj => exact .joined (S := S.answering P) hr ht hj

/-! ## What the bookkeeping leaves alone -/

theorem enqueue_all (os : List I.Op) (m : Machine I) :
    (os.foldl Machine.enqueue m).shared = m.shared ∧
    (os.foldl Machine.enqueue m).flags = m.flags ∧
    (os.foldl Machine.enqueue m).running = m.running ∧
    (os.foldl Machine.enqueue m).settled = m.settled ∧
    ∃ ids, (os.foldl Machine.enqueue m).pending = m.pending ++ ids ∧ ids.map Prod.snd = os := by
  induction os generalizing m with
  | nil => exact ⟨rfl, rfl, rfl, rfl, [], by simp, rfl⟩
  | cons o os ih =>
      obtain ⟨hs, hf, hr, ht, ids, hp, hi⟩ := ih (m.enqueue o)
      refine ⟨hs, hf, hr, ht, (m.fresh, o) :: ids, ?_, by simp [hi]⟩
      rw [List.foldl_cons, hp]
      simp [Machine.enqueue]

@[simp] theorem enqueue_all_shared (os : List I.Op) (m : Machine I) :
    (os.foldl Machine.enqueue m).shared = m.shared := (enqueue_all os m).1

@[simp] theorem enqueue_all_flags (os : List I.Op) (m : Machine I) :
    (os.foldl Machine.enqueue m).flags = m.flags := (enqueue_all os m).2.1

@[simp] theorem enqueue_all_running (os : List I.Op) (m : Machine I) :
    (os.foldl Machine.enqueue m).running = m.running := (enqueue_all os m).2.2.1

@[simp] theorem enqueue_all_settled (os : List I.Op) (m : Machine I) :
    (os.foldl Machine.enqueue m).settled = m.settled := (enqueue_all os m).2.2.2.1

@[simp] theorem advance_flags (id : Nat) (o : I.Op) (p : Prog I Unit) (m : Machine I) :
    (Machine.advance id o p m).flags = m.flags := by
  induction p generalizing m with
  | ret a => rfl
  | fail e => rfl
  | get k ih => exact ih m.shared m
  | set s k ih => exact ih { m with shared := s }
  | ask k ih => exact ih m.flags m
  | await q k _ => rfl
  | queue o' k ih => exact ih m.fresh (m.enqueue o')
  | join j k _ => rfl

theorem advance_running (id : Nat) (o : I.Op) (p : Prog I Unit) (m : Machine I) :
    ∀ t ∈ (Machine.advance id o p m).running, t.id = id := by
  induction p generalizing m with
  | ret a => exact fun _ ht => by cases ht
  | fail e => exact fun _ ht => by cases ht
  | get k ih => exact ih m.shared m
  | set s k ih => exact ih { m with shared := s }
  | ask k ih => exact ih m.flags m
  | await q k _ => exact fun _ ht => by cases ht; rfl
  | queue o' k ih => exact ih m.fresh (m.enqueue o')
  | join j k _ => exact fun _ ht => by cases ht; rfl

/-- Only a step that begins an operation has another one running behind it. -/
theorem step_running {m m' : Machine I} {l : Label S.Call} (h : Step S m l m')
    (hl : l ≠ .begin) : ∀ t' ∈ m'.running, ∃ t ∈ m.running, t.id = t'.id := by
  intro t' ht'
  cases h with
  | call c _ =>
      rw [Machine.receive, enqueue_all_running] at ht'
      exact ⟨t', ht', rfl⟩
  | begin _ _ => exact absurd rfl hl
  | answer hr _ _ =>
      cases ht'
      exact ⟨_, hr, rfl⟩
  | resume hr => exact ⟨_, hr, (advance_running _ _ _ _ t' ht').symm⟩
  | joined hr _ _ =>
      cases ht'
      exact ⟨_, hr, rfl⟩

theorem step_call {m m' : Machine I} {c : S.Call} (h : Step S m (.call c) m') :
    m' = m.receive S c := by
  cases h
  rfl

theorem step_begin {m m' : Machine I} (h : Step S m .begin m') : m.running = none ∧
    ∃ id o rest, m.pending = (id, o) :: rest ∧
      m' = Machine.advance id o (S.body o) { m with pending := rest } := by
  cases h with
  | begin hr hp => exact ⟨hr, _, _, _, hp, rfl⟩

@[simp] theorem receive_flags (c : S.Call) (m : Machine I) :
    (m.receive S c).flags = (S.call c m.flags).1 := enqueue_all_flags _ _

/-- Only calls write the flags. -/
theorem step_flags {m m' : Machine I} {l : Label S.Call} (h : Step S m l m')
    (hl : l.internal) : m'.flags = m.flags := by
  cases h with
  | call c _ => exact False.elim hl
  | begin _ _ => exact advance_flags _ _ _ _
  | answer _ _ _ => rfl
  | resume _ => exact advance_flags _ _ _ _
  | joined _ _ _ => rfl

/-! ## Invariants of runs -/

section
variable (C : I.Op → Contract I) (Inv : I.State → Prop)
  (Post : I.Op → Except I.Error Unit → I.State → Prop)

/-- What an operation establishes at its end. -/
def Ends (S : System I) (o : I.Op) (p : Prog I Unit) (s : I.State) : Prop :=
  wp S.toAnswers (C o) p (fun r t => Inv t ∧ Post o r t) s

/-- Idle, the machine satisfies the invariant and what its last operation established.
Otherwise the rest of the running operation will establish them. -/
def Sound (S : System I) (m : Machine I) : Prop :=
  match m.running with
  | none => Inv m.shared ∧ ∀ t ∈ m.settled.head?, Post t.op t.result m.shared
  | some ⟨_, o, .issued q k⟩ => Ends C Inv Post S o (.await q k) m.shared
  | some ⟨_, o, .ready p⟩ => Ends C Inv Post S o p m.shared
  | some ⟨_, o, .joining j k⟩ => Ends C Inv Post S o (.join j k) m.shared

/-- A machine the contracts of the operations speak about. -/
def Meets (m : Machine I) : Prop :=
  (∀ o, (C o).flags m.flags) ∧
    ∀ id o q k, m.running = some ⟨id, o, .issued q k⟩ → (C o).issued q m.shared

variable {C Inv Post}

/-- An operation that takes `P` to `Q`, whether it succeeds or fails. -/
theorem Ends.of_triple {P Q : I.State → Prop} {o : I.Op} {p : Prog I Unit} {s : I.State}
    (h : Triple S.toAnswers (C o) P p (fun _ => Q) (fun _ => Q))
    (hq : ∀ r t, Q t → Inv t ∧ Post o r t) (hs : P s) : Ends C Inv Post S o p s := by
  refine wp_mono (h s hs) fun r t ht => hq r t ?_
  cases r with
  | ok u => exact ht
  | error e => exact ht

theorem sound_advance {id : Nat} {o : I.Op} {p : Prog I Unit} {m : Machine I}
    (hf : (C o).flags m.flags) (h : Ends C Inv Post S o p m.shared) :
    Sound C Inv Post S (Machine.advance id o p m) := by
  induction p generalizing m with
  | ret a => exact ⟨h.1, by simpa [Machine.advance, Machine.finish] using h.2⟩
  | fail e => exact ⟨h.1, by simpa [Machine.advance, Machine.finish] using h.2⟩
  | get k ih => exact ih m.shared hf h
  | set s k ih => exact ih (m := { m with shared := s }) hf h
  | ask k ih => exact ih m.flags hf (h m.flags hf)
  | await q k _ => exact h
  | queue o' k ih => exact ih m.fresh (m := m.enqueue o') hf (h m.fresh)
  | join j k _ => exact h

/-- `Sound` for a weaker invariant. -/
theorem Sound.mono {Inv' : I.State → Prop} {m : Machine I} (h : ∀ s, Inv s → Inv' s)
    (hs : Sound C Inv Post S m) : Sound C Inv' Post S m := by
  have ends {o : I.Op} {p : Prog I Unit} (hp : Ends C Inv Post S o p m.shared) :
      Ends C Inv' Post S o p m.shared := wp_mono hp fun _ _ ht => ⟨h _ ht.1, ht.2⟩
  unfold Sound at hs ⊢
  split at hs
  · exact ⟨h _ hs.1, hs.2⟩
  · exact ends hs
  · exact ends hs
  · exact ends hs

/-- Which answers are allowed matters only while an operation is running. -/
theorem Sound.answering {P Q : (q : I.Request) → I.State → I.Response q → Prop} {m : Machine I}
    (h : m.running ≠ none → Q = P) (hs : Sound C Inv Post (S.answering P) m) :
    Sound C Inv Post (S.answering Q) m := by
  by_cases hr : m.running = none
  · rw [Sound, hr] at hs ⊢
    exact hs
  · rw [h hr]
    exact hs

theorem sound_receive (c : S.Call) {m : Machine I} (hs : Sound C Inv Post S m) :
    Sound C Inv Post S (m.receive S c) := by
  simp only [Sound, Machine.receive, enqueue_all_running, enqueue_all_shared,
    enqueue_all_settled] at hs ⊢
  exact hs

/-- One step of the machine keeps `Sound`, if the operation it begins establishes it. -/
theorem sound_step_begin {m m' : Machine I} {l : Label S.Call}
    (hb : ∀ id o rest, l = .begin → m.pending = (id, o) :: rest → Inv m.shared →
      Sound C Inv Post S (Machine.advance id o (S.body o) { m with pending := rest }))
    (hm : Meets C m) (h : Step S m l m') (hs : Sound C Inv Post S m) :
    Sound C Inv Post S m' := by
  cases h with
  | call c _ => exact sound_receive c hs
  | begin hr hp =>
      rw [Sound, hr] at hs
      exact hb _ _ _ rfl hp hs.1
  | answer hr r ha =>
      rw [Sound, hr] at hs
      exact hs (hm.2 _ _ _ _ hr) r ha
  | resume hr =>
      rw [Sound, hr] at hs
      exact sound_advance (hm.1 _) hs
  | joined hr ht hj =>
      rw [Sound, hr] at hs
      exact hs _

/-- One step of the machine keeps `Sound`. -/
theorem sound_step {m m' : Machine I} {l : Label S.Call}
    (hb : ∀ o s, Inv s → Ends C Inv Post S o (S.body o) s) (hm : Meets C m)
    (h : Step S m l m') (hs : Sound C Inv Post S m) : Sound C Inv Post S m' :=
  sound_step_begin (fun _ _ _ _ _ hi => sound_advance (hm.1 _) (hb _ _ hi)) hm h hs

/-- Operations that keep the invariant keep it along every run of machines that meet the
contract. -/
theorem sound_runs {m m' : Machine I} {cond : Machine I → Label S.Call → Machine I → Prop}
    (hb : ∀ o s, Inv s → Ends C Inv Post S o (S.body o) s)
    (hc : ∀ m l m', cond m l m' → Meets C m) (h : RunsIf S cond m m')
    (hs : Sound C Inv Post S m) : Sound C Inv Post S m' := by
  induction h with
  | refl => exact hs
  | tail _ hl ih =>
      obtain ⟨l, hstep, hcond⟩ := hl
      exact sound_step hb (hc _ _ _ hcond) hstep ih

end

/-! ## Identities -/

section
open Machine

/-- The operations that have not started or have run. -/
def Machine.others (m : Machine I) : List (Nat × I.Op) :=
  m.settled.map (fun t => (t.id, t.op)) ++ m.pending

/-- The operations queued so far, each with its identity. -/
def Machine.ops (m : Machine I) : List (Nat × I.Op) :=
  m.running.toList.map (fun t => (t.id, t.op)) ++ m.others

theorem mem_ops_enqueue {m : Machine I} {o : I.Op} {e : Nat × I.Op} :
    e ∈ (m.enqueue o).ops ↔ e ∈ m.ops ∨ e = (m.fresh, o) := by
  simp [ops, others, Machine.enqueue, or_assoc]

/-- Every identity given out lies below the next one. -/
def Unused (m : Machine I) : Prop := ∀ e ∈ m.ops, e.1 < m.fresh

/-- What is in the second machine comes from `old` or was queued after the first machine. -/
def Grows (old : List (Nat × I.Op)) (m m' : Machine I) : Prop :=
  m.fresh ≤ m'.fresh ∧ ∀ e ∈ m'.ops, e ∈ old ∨ m.fresh ≤ e.1 ∧ e.1 < m'.fresh

theorem grows_enqueue {old : List (Nat × I.Op)} {o : I.Op} {m m' : Machine I}
    (h : Grows ((m.fresh, o) :: old) (m.enqueue o) m') : Grows old m m' := by
  obtain ⟨hf, he⟩ := h
  have hlt : m.fresh < m'.fresh := hf
  refine ⟨Nat.le_of_lt hlt, fun e hmem => ?_⟩
  rcases he e hmem with hold | ⟨hge, hl⟩
  · rcases List.mem_cons.mp hold with rfl | hold
    · exact Or.inr ⟨Nat.le_refl _, hlt⟩
    · exact Or.inl hold
  · exact Or.inr ⟨Nat.le_of_succ_le hge, hl⟩

theorem grows_enqueue_all (os : List I.Op) (m : Machine I) :
    Grows m.ops m (os.foldl enqueue m) := by
  suffices h : ∀ old, (∀ e ∈ m.ops, e ∈ old) → Grows old m (os.foldl enqueue m) from
    h m.ops fun _ h => h
  induction os generalizing m with
  | nil => exact fun old h => ⟨Nat.le_refl _, fun e he => Or.inl (h e he)⟩
  | cons o os ih =>
      intro old h
      refine grows_enqueue (ih (m.enqueue o) _ fun e he => ?_)
      rcases mem_ops_enqueue.mp he with hmem | rfl
      · exact List.mem_cons_of_mem _ (h e hmem)
      · exact List.mem_cons_self

theorem grows_advance {id : Nat} {o : I.Op} {p : Prog I Unit} {m : Machine I}
    {old : List (Nat × I.Op)} (h : ∀ e ∈ (id, o) :: m.others, e ∈ old) :
    Grows old m (advance id o p m) := by
  induction p generalizing m old with
  | ret a => exact ⟨Nat.le_refl _, fun e he => Or.inl (h e he)⟩
  | fail e => exact ⟨Nat.le_refl _, fun e he => Or.inl (h e he)⟩
  | get k ih => exact ih m.shared h
  | set s k ih => exact ih (m := { m with shared := s }) h
  | ask k ih => exact ih m.flags h
  | await q k _ => exact ⟨Nat.le_refl _, fun e he => Or.inl (h e he)⟩
  | queue o' k ih =>
      refine grows_enqueue (ih m.fresh (m := m.enqueue o') fun e he => ?_)
      have hmem : e = (m.fresh, o') ∨ e ∈ (id, o) :: m.others := by
        simp only [others, enqueue, List.mem_cons, List.mem_append, List.not_mem_nil,
          or_false] at he ⊢
        tauto
      rcases hmem with rfl | hmem
      · exact List.mem_cons_self
      · exact List.mem_cons_of_mem _ (h e hmem)
  | join j k _ => exact ⟨Nat.le_refl _, fun e he => Or.inl (h e he)⟩

/-- A step changes no identity and gives a new one to what it queues. -/
theorem step_grows {m m' : Machine I} {l : Label S.Call} (h : Step S m l m') :
    Grows m.ops m m' := by
  cases h with
  | call c _ =>
      exact grows_enqueue_all (S.call c m.flags).2 { m with flags := (S.call c m.flags).1 }
  | @begin id o rest hr hp =>
      refine grows_advance (m := { m with pending := rest }) fun e he => ?_
      simp only [ops, others, hr, hp, List.mem_cons, List.mem_append] at he ⊢
      tauto
  | answer hr r ha =>
      refine ⟨Nat.le_refl _, fun e he => Or.inl ?_⟩
      simpa [ops, others, hr] using he
  | resume hr =>
      refine grows_advance fun e he => ?_
      simpa [ops, hr] using he
  | joined hr ht hj =>
      refine ⟨Nat.le_refl _, fun e he => Or.inl ?_⟩
      simpa [ops, others, hr] using he

theorem unused_step {m m' : Machine I} {l : Label S.Call} (h : Step S m l m')
    (hu : Unused m) : Unused m' := by
  intro e he
  obtain ⟨hf, hg⟩ := step_grows h
  rcases hg e he with hold | hnew
  · exact Nat.lt_of_lt_of_le (hu e hold) hf
  · exact hnew.2

theorem unused_runs {cond : Machine I → Label S.Call → Machine I → Prop} {m m' : Machine I}
    (h : RunsIf S cond m m') (hu : Unused m) : Unused m' := by
  induction h with
  | refl => exact hu
  | tail _ hl ih =>
      obtain ⟨l, hstep, _⟩ := hl
      exact unused_step hstep ih

/-! ## Settling -/

/-- The operation with this identity has run. -/
def Machine.HasSettled (m : Machine I) (id : Nat) : Prop := ∃ t ∈ m.settled, t.id = id

instance (m : Machine I) (id : Nat) : Decidable (m.HasSettled id) :=
  inferInstanceAs (Decidable (∃ t ∈ m.settled, t.id = id))

theorem advance_settled (id : Nat) (o : I.Op) (p : Prog I Unit) (m : Machine I) :
    (advance id o p m).settled = m.settled ∨
      (advance id o p m).running = none ∧
        ∃ r, (advance id o p m).settled = ⟨id, o, r⟩ :: m.settled := by
  induction p generalizing m with
  | ret a => exact Or.inr ⟨rfl, _, rfl⟩
  | fail e => exact Or.inr ⟨rfl, _, rfl⟩
  | get k ih => exact ih m.shared m
  | set s k ih => exact ih { m with shared := s }
  | ask k ih => exact ih m.flags m
  | await q k _ => exact Or.inl rfl
  | queue o' k ih => exact ih m.fresh (m.enqueue o')
  | join j k _ => exact Or.inl rfl

/-- A step settles nothing, or one operation, which leaves the machine idle. -/
theorem step_settled {m m' : Machine I} {l : Label S.Call} (h : Step S m l m') :
    m'.settled = m.settled ∨ m'.running = none ∧ ∃ t, m'.settled = t :: m.settled := by
  cases h with
  | call c _ => exact Or.inl (enqueue_all_settled _ _)
  | begin hr hp =>
      rcases advance_settled _ _ _ _ with h | ⟨hn, r, h⟩
      · exact Or.inl h
      · exact Or.inr ⟨hn, _, h⟩
  | answer _ _ _ => exact Or.inl rfl
  | resume hr =>
      rcases advance_settled _ _ _ _ with h | ⟨hn, r, h⟩
      · exact Or.inl h
      · exact Or.inr ⟨hn, _, h⟩
  | joined _ _ _ => exact Or.inl rfl

theorem hasSettled_mono {m m' : Machine I} {l : Label S.Call} {id : Nat} (h : Step S m l m')
    (hs : m.HasSettled id) : m'.HasSettled id := by
  obtain ⟨t, ht, hid⟩ := hs
  refine ⟨t, ?_, hid⟩
  rcases step_settled h with he | ⟨_, u, he⟩ <;> rw [he]
  · exact ht
  · exact List.mem_cons_of_mem _ ht

/-- The step that settles an operation leaves the machine idle, with that operation the
latest to have run. -/
theorem settles_at_step {m m' : Machine I} {l : Label S.Call} {id : Nat} (h : Step S m l m')
    (hn : ¬ m.HasSettled id) (hs : m'.HasSettled id) :
    m'.running = none ∧ ∃ t ∈ m'.settled.head?, t.id = id := by
  obtain ⟨u, hu, hid⟩ := hs
  rcases step_settled h with he | ⟨hidle, t, he⟩ <;> rw [he] at hu
  · exact absurd ⟨u, hu, hid⟩ hn
  · refine ⟨hidle, t, by rw [he]; rfl, ?_⟩
    rcases List.mem_cons.mp hu with rfl | hu
    · exact hid
    · exact absurd ⟨u, hu, hid⟩ hn

theorem Unused.not_hasSettled {m : Machine I} (hu : Unused m) : ¬ m.HasSettled m.fresh := by
  intro h
  obtain ⟨t, ht, hid⟩ := h
  refine Nat.ne_of_lt (hu (t.id, t.op) ?_) hid
  exact List.mem_append_right _ (List.mem_append_left _ (List.mem_map.mpr ⟨t, ht, rfl⟩))

/-- An identity keeps its operation. -/
theorem named_step {m m' : Machine I} {l : Label S.Call} {id : Nat} {o : I.Op}
    (h : Step S m l m') (hid : id < m.fresh) (ho : ∀ o', (id, o') ∈ m.ops → o' = o) :
    id < m'.fresh ∧ ∀ o', (id, o') ∈ m'.ops → o' = o := by
  obtain ⟨hf, hg⟩ := step_grows h
  refine ⟨Nat.lt_of_lt_of_le hid hf, fun o' hmem => ?_⟩
  rcases hg _ hmem with hold | ⟨hge, _⟩
  · exact ho o' hold
  · exact absurd hid (Nat.not_lt.mpr hge)

end

/-- An invariant that one operation establishes at its end takes over from another there.
The first holds until that operation has settled, the second from then on. -/
theorem sound_handover {C₁ C₂ : I.Op → Contract I} {Inv₁ Inv₂ : I.State → Prop}
    {Post₁ Post₂ : I.Op → Except I.Error Unit → I.State → Prop}
    {cond : Machine I → Label S.Call → Machine I → Prop} {id : Nat} {o : I.Op}
    {m m' : Machine I}
    (hb₁ : ∀ o s, Inv₁ s → Ends C₁ Inv₁ Post₁ S o (S.body o) s)
    (hb₂ : ∀ o s, Inv₂ s → Ends C₂ Inv₂ Post₂ S o (S.body o) s)
    (hc₁ : ∀ m l m', cond m l m' → ¬ m.HasSettled id → Meets C₁ m)
    (hc₂ : ∀ m l m', cond m l m' → m.HasSettled id → Meets C₂ m)
    (hpost : ∀ r s, Inv₁ s → Post₁ o r s → Inv₂ s ∧ Post₂ o r s)
    (hid : id < m.fresh) (ho : ∀ o', (id, o') ∈ m.ops → o' = o) (hn : ¬ m.HasSettled id)
    (hs : Sound C₁ Inv₁ Post₁ S m) (h : RunsIf S cond m m') :
    m'.HasSettled id → Sound C₂ Inv₂ Post₂ S m' := by
  suffices hrun : (id < m'.fresh ∧ ∀ o', (id, o') ∈ m'.ops → o' = o) ∧
      (¬ m'.HasSettled id → Sound C₁ Inv₁ Post₁ S m') ∧
      (m'.HasSettled id → Sound C₂ Inv₂ Post₂ S m') from hrun.2.2
  induction h with
  | refl => exact ⟨⟨hid, ho⟩, fun _ => hs, fun h => absurd h hn⟩
  | @tail a b _ hl ih =>
      obtain ⟨l, hstep, hcond⟩ := hl
      obtain ⟨⟨hlt, hop⟩, h₁, h₂⟩ := ih
      have hop' := named_step hstep hlt hop
      refine ⟨hop', fun hb => ?_, fun hb => ?_⟩
      · have ha : ¬ a.HasSettled id := fun h => hb (hasSettled_mono hstep h)
        exact sound_step hb₁ (hc₁ _ _ _ hcond ha) hstep (h₁ ha)
      · by_cases ha : a.HasSettled id
        · exact sound_step hb₂ (hc₂ _ _ _ hcond ha) hstep (h₂ ha)
        · have hsound := sound_step hb₁ (hc₁ _ _ _ hcond ha) hstep (h₁ ha)
          obtain ⟨hidle, t, hhead, rfl⟩ := settles_at_step hstep ha hb
          have hto : t.op = o := by
            refine hop'.2 t.op (List.mem_append_right _ (List.mem_append_left _ ?_))
            exact List.mem_map.mpr ⟨t, List.mem_of_mem_head? hhead, rfl⟩
          rw [Sound, hidle] at hsound ⊢
          have hp := hsound.2 t hhead
          rw [hto] at hp
          obtain ⟨hinv, hpo⟩ := hpost _ _ hsound.1 hp
          refine ⟨hinv, fun u hu => ?_⟩
          obtain rfl : t = u := Option.some.inj (hhead.symm.trans hu)
          rw [hto]
          exact hpo

/-! ## Progress -/

/-- The rest of a started operation waits for no other operation. -/
def FlatSusp (c : I.Flags → Prop) : Susp I → Prop
  | .issued _ k => ∀ r, Flat c (k r)
  | .ready p => Flat c p
  | .joining _ _ => False

theorem FlatSusp.mono {c c' : I.Flags → Prop} {u : Susp I} (h : ∀ f, c' f → c f)
    (hu : FlatSusp c u) : FlatSusp c' u := by
  cases u with
  | issued q k => exact fun r => flat_mono h (hu r)
  | ready p => exact flat_mono h hu
  | joining j k => exact hu

theorem flat_advance {c : I.Flags → Prop} {id : Nat} {o : I.Op} {p : Prog I Unit}
    {m : Machine I} (hf : c m.flags) (hp : Flat c p) :
    ∀ t ∈ (Machine.advance id o p m).running, FlatSusp c t.susp := by
  induction p generalizing m with
  | ret a => simp [Machine.advance, Machine.finish]
  | fail e => simp [Machine.advance, Machine.finish]
  | get k ih => exact ih m.shared hf (hp _)
  | set s k ih => exact ih (m := { m with shared := s }) hf hp
  | ask k ih => exact ih m.flags hf (hp _ hf)
  | await q k _ =>
      intro t ht
      obtain rfl := Option.some.inj ht
      exact hp
  | queue o' k _ => exact False.elim hp
  | join j k _ => exact False.elim hp

/-- A flat program queues nothing. -/
theorem flat_advance_pending {c : I.Flags → Prop} {id : Nat} {o : I.Op} {p : Prog I Unit}
    {m : Machine I} (hf : c m.flags) (hp : Flat c p) :
    (Machine.advance id o p m).pending = m.pending := by
  induction p generalizing m with
  | ret a => rfl
  | fail e => rfl
  | get k ih => exact ih m.shared hf (hp _)
  | set s k ih => exact ih (m := { m with shared := s }) hf hp
  | ask k ih => exact ih m.flags hf (hp _ hf)
  | await q k _ => rfl
  | queue o' k _ => exact False.elim hp
  | join j k _ => exact False.elim hp

/-- What has started stays flat where what begins is. -/
theorem flat_step {c : I.Flags → Prop} {m m' : Machine I} {l : Label S.Call}
    (hb : ∀ id o rest, l = .begin → m.pending = (id, o) :: rest →
      ∀ t ∈ (Machine.advance id o (S.body o) { m with pending := rest }).running,
        FlatSusp c t.susp)
    (hf : c m.flags) (h : Step S m l m') (hr : ∀ t ∈ m.running, FlatSusp c t.susp) :
    ∀ t ∈ m'.running, FlatSusp c t.susp := by
  cases h with
  | call d _ =>
      rw [Machine.receive, enqueue_all_running]
      exact hr
  | begin _ hp => exact hb _ _ _ rfl hp
  | @answer _ _ q k hrun r _ =>
      intro t ht
      obtain rfl := Option.some.inj ht
      exact (show ∀ r, Flat c (k r) from hr _ hrun) r
  | resume hrun => exact flat_advance hf (hr _ hrun)
  | joined hrun _ _ => exact False.elim (hr _ hrun)

/-- Steps of the machine alone, which begin none but the given operations. -/
def Internal (S : System I) (queue : List (Nat × I.Op)) : Machine I → Machine I → Prop :=
  RunsIf S fun m l _ => l.internal ∧ (l = .begin → ∃ e ∈ queue, m.pending.head? = some e)

/-- Every request can be answered. -/
def Answered (S : System I) : Prop := ∀ q s, ∃ r, S.allowed q s r

variable {queue : List (Nat × I.Op)} {c : I.Flags → Prop}

/-- An answer and the resumption it allows. -/
theorem answer_resume {m : Machine I} {id : Nat} {o : I.Op} {q : I.Request}
    {k : I.Response q → Prog I Unit} (hr : m.running = some ⟨id, o, .issued q k⟩)
    (r : I.Response q) (ha : S.allowed q m.shared r) :
    Internal S queue m (Machine.advance id o (k r)
      { m with shared := S.effect q r m.shared, running := some ⟨id, o, .ready (k r)⟩ }) :=
  .tail (.single ⟨_, .answer hr r ha, trivial, nofun⟩) ⟨_, .resume rfl, trivial, nofun⟩

variable (queue) in
/-- A flat program is run to its end by the machine alone, whatever it has started with. -/
theorem finish_flat (hans : Answered S) (id : Nat) (o : I.Op) {p : Prog I Unit} {m : Machine I}
    (hf : c m.flags) (hp : Flat c p) :
    ∃ m' r, Internal S queue (Machine.advance id o p m) m' ∧ m'.running = none ∧
      m'.pending = m.pending ∧ m'.flags = m.flags ∧ m'.settled = ⟨id, o, r⟩ :: m.settled := by
  induction p generalizing m with
  | ret a => exact ⟨_, _, .refl, rfl, rfl, rfl, rfl⟩
  | fail e => exact ⟨_, _, .refl, rfl, rfl, rfl, rfl⟩
  | get k ih => exact ih m.shared hf (hp _)
  | set s k ih => exact ih (m := { m with shared := s }) hf hp
  | ask k ih => exact ih m.flags hf (hp _ hf)
  | await q k ih =>
      obtain ⟨r, ha⟩ := hans q m.shared
      obtain ⟨m', r', h, hfin⟩ := ih r (m := { m with
        shared := S.effect q r m.shared, running := some ⟨id, o, .ready (k r)⟩ }) hf (hp r)
      exact ⟨m', r', (answer_resume (m := { m with running := some ⟨id, o, .issued q k⟩ })
        rfl r ha).trans h, hfin⟩
  | queue o' k _ => exact False.elim hp
  | join j k _ => exact False.elim hp

/-- A started operation whose rest is flat is run to its end. -/
theorem finish_running (hans : Answered S) {m : Machine I} {t : Task I} (hf : c m.flags)
    (hr : m.running = some t) (hp : FlatSusp c t.susp) :
    ∃ m' r, Internal S queue m m' ∧ m'.running = none ∧ m'.pending = m.pending ∧
      m'.flags = m.flags ∧ m'.settled = ⟨t.id, t.op, r⟩ :: m.settled := by
  obtain ⟨id, o, susp⟩ := t
  cases susp with
  | issued q k =>
      obtain ⟨r, ha⟩ := hans q m.shared
      obtain ⟨m', r', h, hfin⟩ := finish_flat queue hans id o (m := { m with
        shared := S.effect q r m.shared, running := some ⟨id, o, .ready (k r)⟩ }) hf (hp r)
      exact ⟨m', r', (answer_resume hr r ha).trans h, hfin⟩
  | ready p =>
      obtain ⟨m', r', h, hfin⟩ := finish_flat queue hans id o (m := m) hf hp
      exact ⟨m', r', RunsIf.trans (.single ⟨_, .resume hr, trivial, nofun⟩) h, hfin⟩
  | joining j k => exact False.elim hp

/-- An idle machine whose queued operations are all flat runs every one of them. -/
theorem drain_idle (hans : Answered S) (queued : List (Nat × I.Op)) {m : Machine I}
    (hsub : ∀ e ∈ queued, e ∈ queue) (hq : m.pending = queued) (hf : c m.flags)
    (hr : m.running = none) (hp : ∀ e ∈ queued, Flat c (S.body e.2)) :
    ∃ m', Internal S queue m m' ∧ m'.running = none ∧ m'.pending = [] ∧
      (∀ e ∈ queued, m'.HasSettled e.1) ∧ ∀ t ∈ m.settled, t ∈ m'.settled := by
  induction queued generalizing m with
  | nil => exact ⟨m, .refl, hr, hq, by simp, fun _ h => h⟩
  | cons e rest ih =>
      obtain ⟨id, o⟩ := e
      have hbegin : Internal S queue m
          (Machine.advance id o (S.body o) { m with pending := rest }) :=
        .single ⟨_, .begin hr hq, trivial, fun _ => ⟨_, hsub _ List.mem_cons_self, by rw [hq]; rfl⟩⟩
      obtain ⟨m₁, r, h₁, hn, hpend, hfl, hset⟩ := finish_flat queue hans id o (c := c)
        (m := { m with pending := rest }) hf (hp (id, o) List.mem_cons_self)
      obtain ⟨m', h₂, hn', hp', hall, hkeep⟩ := ih
        (fun e he => hsub e (List.mem_cons_of_mem _ he)) hpend (by rw [hfl]; exact hf) hn
        fun e he => hp e (List.mem_cons_of_mem _ he)
      refine ⟨m', (hbegin.trans h₁).trans h₂, hn', hp', ?_, ?_⟩
      · intro e he
        rcases List.mem_cons.mp he with rfl | he
        · exact ⟨⟨id, o, r⟩, hkeep _ (by simp [hset]), rfl⟩
        · exact hall e he
      · intro t ht
        exact hkeep t (by rw [hset]; exact List.mem_cons_of_mem _ ht)

/-- Whatever is running and queued runs to its end when no part of it waits for another
operation. -/
theorem drain (hans : Answered S) {m : Machine I} (hf : c m.flags)
    (hr : ∀ t ∈ m.running, FlatSusp c t.susp) (hp : ∀ e ∈ m.pending, Flat c (S.body e.2)) :
    ∃ m', Internal S m.pending m m' ∧ m'.running = none ∧ m'.pending = [] ∧
      ∀ e ∈ m.ops, m'.HasSettled e.1 := by
  suffices h : ∃ m₁, Internal S m.pending m m₁ ∧ m₁.running = none ∧ m₁.pending = m.pending ∧
      m₁.flags = m.flags ∧ (∀ t ∈ m.running, m₁.HasSettled t.id) ∧
      ∀ t ∈ m.settled, t ∈ m₁.settled by
    obtain ⟨m₁, h₁, hn, hpend, hfl, hrun, hkeep⟩ := h
    obtain ⟨m', h₂, hn', he, hall, hkeep'⟩ := drain_idle hans m.pending (fun _ h => h) hpend
      (by rw [hfl]; exact hf) hn hp
    refine ⟨m', h₁.trans h₂, hn', he, fun e hmem => ?_⟩
    simp only [Machine.ops, Machine.others, List.mem_append, List.mem_map,
      Option.mem_toList] at hmem
    rcases hmem with ⟨t, ht, rfl⟩ | ⟨t, ht, rfl⟩ | hmem
    · obtain ⟨u, hu, hid⟩ := hrun t ht
      exact ⟨u, hkeep' u hu, hid⟩
    · exact ⟨t, hkeep' t (hkeep t ht), rfl⟩
    · exact hall e hmem
  cases hrun : m.running with
  | none => exact ⟨m, .refl, hrun, rfl, rfl, nofun, fun _ h => h⟩
  | some t =>
      obtain ⟨m₁, r, h₁, hn, hpend, hfl, hset⟩ :=
        finish_running hans hf hrun (hr t (by rw [hrun]; rfl))
      refine ⟨m₁, h₁, hn, hpend, hfl, fun u hu => ?_, fun u hu => ?_⟩
      · obtain rfl := Option.some.inj hu
        exact ⟨_, by rw [hset]; exact List.mem_cons_self, rfl⟩
      · rw [hset]
        exact List.mem_cons_of_mem _ hu

/-- A machine with work, whose running operation does not wait for another, can step. -/
theorem internal_step (hans : Answered S) {m : Machine I}
    (hw : m.running ≠ none ∨ m.pending ≠ [])
    (hj : ∀ id o j k, m.running ≠ some ⟨id, o, .joining j k⟩) :
    ∃ l m', Step S m l m' ∧ l.internal := by
  cases hrun : m.running with
  | none =>
      obtain ⟨⟨id, o⟩, rest, hp⟩ := List.exists_cons_of_ne_nil (hw.resolve_left (by simp [hrun]))
      exact ⟨_, _, .begin hrun hp, trivial⟩
  | some t =>
      obtain ⟨id, o, susp⟩ := t
      cases susp with
      | issued q k =>
          obtain ⟨r, ha⟩ := hans q m.shared
          exact ⟨_, _, .answer hrun r ha, trivial⟩
      | ready p => exact ⟨_, _, .resume hrun, trivial⟩
      | joining j k => exact absurd hrun (hj id o j k)

/-! ## Waiting for a later operation -/

/-- The running operation waits for one queued behind it. -/
structure Blocked (m : Machine I) (j : Nat) : Prop where
  joining : ∃ id o k, m.running = some ⟨id, o, .joining j k⟩
  pending : j ∈ m.pending.map Prod.fst
  unsettled : ∀ t ∈ m.settled, t.id ≠ j

theorem Blocked.awaitsPending {m : Machine I} {j : Nat} (h : Blocked m j) : AwaitsPending m := by
  obtain ⟨⟨id, o, k, hr⟩, hp, _⟩ := h
  exact ⟨id, o, j, k, hr, hp⟩

/-- A blocked machine stays blocked and settles nothing. -/
theorem blocked_step {m m' : Machine I} {l : Label S.Call} {j : Nat} (h : Step S m l m')
    (hb : Blocked m j) : Blocked m' j ∧ m'.settled = m.settled := by
  obtain ⟨⟨id, o, k, hr⟩, hp, hs⟩ := hb
  cases h with
  | call c _ =>
      obtain ⟨-, -, hrun, hset, ids, hpend, -⟩ :=
        enqueue_all (S.call c m.flags).2 { m with flags := (S.call c m.flags).1 }
      refine ⟨⟨⟨id, o, k, hrun.trans hr⟩, ?_, ?_⟩, hset⟩
      · rw [Machine.receive, hpend, List.map_append]
        exact List.mem_append_left _ hp
      · rw [Machine.receive, hset]
        exact hs
  | begin hn _ => simp [hr] at hn
  | answer hr' _ _ => simp [hr] at hr'
  | resume hr' => simp [hr] at hr'
  | joined hr' ht hj =>
      rw [hr] at hr'
      obtain ⟨-, -, hj', -⟩ := by simpa using hr'
      exact absurd (hj.trans hj'.symm) (hs _ ht)

theorem blocked_runs {m m' : Machine I} {j : Nat} (h : Runs S m m') (hb : Blocked m j) :
    Blocked m' j ∧ m'.settled = m.settled := by
  induction h with
  | refl => exact ⟨hb, rfl⟩
  | tail _ hl ih =>
      obtain ⟨l, hstep, _⟩ := hl
      obtain ⟨hb', hs'⟩ := blocked_step hstep ih.1
      exact ⟨hb', hs'.trans ih.2⟩

/-! ## A schedule that can be computed -/

section
variable (S) (reply : (q : I.Request) → I.State → I.Response q)

/-- The step the machine takes by itself, when requests are answered by `reply`. -/
def Machine.next (m : Machine I) : Machine I :=
  match m.running with
  | none =>
      match m.pending with
      | [] => m
      | (id, o) :: rest => advance id o (S.body o) { m with pending := rest }
  | some ⟨id, o, .issued q k⟩ =>
      { m with
        shared := S.effect q (reply q m.shared) m.shared
        running := some ⟨id, o, .ready (k (reply q m.shared))⟩ }
  | some ⟨id, o, .ready p⟩ => advance id o p m
  | some ⟨id, o, .joining j k⟩ =>
      match m.settled.find? (·.id = j) with
      | some t => { m with running := some ⟨id, o, .ready (k t.result)⟩ }
      | none => m

def Machine.drive : Nat → Machine I → Machine I
  | 0, m => m
  | n + 1, m => drive n (m.next S reply)

variable {S reply}

/-- If there is a reply to what is asked, the schedule takes a step or stands still. -/
theorem next_step {m : Machine I}
    (hr : ∀ id o q k, m.running = some ⟨id, o, .issued q k⟩ →
      S.allowed q m.shared (reply q m.shared)) :
    m.next S reply = m ∨ ∃ l, Step S m l (m.next S reply) ∧ l.internal := by
  unfold Machine.next
  split
  · rename_i hrun
    split
    · exact Or.inl rfl
    · rename_i hp
      exact Or.inr ⟨_, .begin hrun hp, trivial⟩
  · rename_i hrun
    exact Or.inr ⟨_, .answer hrun _ (hr _ _ _ _ hrun), trivial⟩
  · rename_i hrun
    exact Or.inr ⟨_, .resume hrun, trivial⟩
  · rename_i hrun
    split
    · rename_i ht
      have hj := List.find?_some ht
      exact Or.inr ⟨_, .joined hrun (List.mem_of_find?_eq_some ht) (of_decide_eq_true hj), trivial⟩
    · exact Or.inl rfl

/-- The schedule is a run, and `ok` holds along it where it holds of the machines passed. -/
theorem drive_runs_ok (ok : Machine I → Bool)
    (hr : ∀ m, ok m = true → ∀ id o q k, m.running = some ⟨id, o, .issued q k⟩ →
      S.allowed q m.shared (reply q m.shared)) (n : Nat)
    (m : Machine I) (hok : ∀ k < n, ok (m.drive S reply k) = true) :
    RunsIf S (fun m l _ => l.internal ∧ ok m = true) m (m.drive S reply n) := by
  induction n generalizing m with
  | zero => exact .refl
  | succ n ih =>
      have hm : ok m = true := hok 0 (Nat.succ_pos n)
      have h1 : RunsIf S (fun m l _ => l.internal ∧ ok m = true) m (m.next S reply) := by
        rcases next_step (hr m hm) with he | ⟨l, hstep, hl⟩
        · rw [he]
          exact .refl
        · exact .single ⟨l, hstep, hl, hm⟩
      exact h1.trans (ih (m.next S reply) fun k hk => hok (k + 1) (Nat.succ_lt_succ hk))

theorem drive_answering (P : (q : I.Request) → I.State → I.Response q → Prop) (n : Nat)
    (m : Machine I) : m.drive (S.answering P) reply n = m.drive S reply n := by
  induction n generalizing m with
  | zero => rfl
  | succ n ih => exact ih (m.next S reply)

theorem drive_runs (hr : ∀ q s, S.allowed q s (reply q s)) (ok : Machine I → Bool) (n : Nat)
    (m : Machine I) (hok : ∀ k < n, ok (m.drive S reply k) = true) :
    RunsIf S (fun m l _ => l.internal ∧ ok m = true) m (m.drive S reply n) :=
  drive_runs_ok ok (fun _ _ _ _ _ _ _ => hr _ _) n m hok

end

end DshClashProxy.Lib.Serial
