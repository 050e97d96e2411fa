import Mathlib.Logic.Basic

/-!
# Programs that suspend at awaits

A program here is a tree. Between two awaits it reads and writes a state that no other
program writes, so the stretch is one atomic step. At an await it names a request and
goes on with whatever response the request is given. It may also queue further
operations and wait for a queued operation to settle.

`wp` is the weakest precondition of such a program, and `Triple` states one together with
a precondition. Responses are arbitrary among those the request allows, and a `Contract`
restricts the runs considered: the flags that may be read, and what holds of the state
whenever a given request is issued. `Flat` programs neither queue nor wait.
-/
namespace DshClashProxy.Lib.Async

/-- The types a family of programs is written over. `State` is written by the programs
alone. `Flags` is written by their environment and only read by them. -/
structure Interface where
  State : Type
  Flags : Type
  Op : Type
  Error : Type
  Request : Type
  Response : Request → Type

inductive Prog (I : Interface) (α : Type) : Type where
  | ret (a : α)
  | fail (e : I.Error)
  | get (k : I.State → Prog I α)
  | set (s : I.State) (k : Prog I α)
  | ask (k : I.Flags → Prog I α)
  | await (q : I.Request) (k : I.Response q → Prog I α)
  | queue (o : I.Op) (k : Nat → Prog I α)
  | join (id : Nat) (k : Except I.Error Unit → Prog I α)

namespace Prog
variable {I : Interface} {α β : Type}

protected def bind : Prog I α → (α → Prog I β) → Prog I β
  | ret a, f => f a
  | fail e, _ => fail e
  | get k, f => get fun s => (k s).bind f
  | set s k, f => set s (k.bind f)
  | ask k, f => ask fun c => (k c).bind f
  | await q k, f => await q fun r => (k r).bind f
  | queue o k, f => queue o fun id => (k id).bind f
  | join id k, f => join id fun r => (k r).bind f

/-- Run the handler where the program fails; a failure of the handler passes through. -/
def tryCatch : Prog I α → (I.Error → Prog I α) → Prog I α
  | ret a, _ => ret a
  | fail e, h => h e
  | get k, h => get fun s => (k s).tryCatch h
  | set s k, h => set s (k.tryCatch h)
  | ask k, h => ask fun c => (k c).tryCatch h
  | await q k, h => await q fun r => (k r).tryCatch h
  | queue o k, h => queue o fun id => (k id).tryCatch h
  | join id k, h => join id fun r => (k r).tryCatch h

instance : Monad (Prog I) where
  pure := ret
  bind := Prog.bind

def modify (f : I.State → I.State) : Prog I Unit := get fun s => set (f s) (ret ())

/-- Await a response that is either a value or a failure, and rethrow the failure. -/
def ofExcept : Except I.Error α → Prog I α
  | .ok a => ret a
  | .error e => fail e

def read : Prog I I.State := get ret

def flags : Prog I I.Flags := ask ret

def request (q : I.Request) : Prog I (I.Response q) := await q ret

def enqueue (o : I.Op) : Prog I Nat := queue o ret

def settled (id : Nat) : Prog I (Except I.Error Unit) := join id ret

end Prog

/-- How requests are answered. -/
structure Answers (I : Interface) where
  /-- The responses a request can be given. -/
  allowed : (q : I.Request) → I.State → I.Response q → Prop
  /-- What answering the request does to the state. -/
  effect : (q : I.Request) → I.Response q → I.State → I.State

/-- The runs a weakest precondition speaks about. -/
structure Contract (I : Interface) where
  flags : I.Flags → Prop
  issued : I.Request → I.State → Prop

section
variable {I : Interface} (A : Answers I) (C : Contract I) {α β : Type}

/-- Every finished run of the program from the state ends in `Q`. -/
def wp : Prog I α → (Except I.Error α → I.State → Prop) → I.State → Prop
  | .ret a, Q, s => Q (.ok a) s
  | .fail e, Q, s => Q (.error e) s
  | .get k, Q, s => wp (k s) Q s
  | .set s' k, Q, _ => wp k Q s'
  | .ask k, Q, s => ∀ c, C.flags c → wp (k c) Q s
  | .await q k, Q, s => C.issued q s → ∀ r, A.allowed q s r → wp (k r) Q (A.effect q r s)
  | .queue _ k, Q, s => ∀ id, wp (k id) Q s
  | .join _ k, Q, s => ∀ r, wp (k r) Q s

variable {A C} {Q Q' : Except I.Error α → I.State → Prop} {s : I.State}

theorem wp_mono {p : Prog I α} (h : wp A C p Q s) (hq : ∀ r t, Q r t → Q' r t) :
    wp A C p Q' s := by
  induction p generalizing s with
  | ret a => exact hq _ _ h
  | fail e => exact hq _ _ h
  | get k ih => exact ih s h
  | set s' k ih => exact ih h
  | ask k ih => exact fun c hc => ih c (h c hc)
  | await q k ih => exact fun hi r hr => ih r (h hi r hr)
  | queue o k ih => exact fun id => ih id (h id)
  | join id k ih => exact fun r => ih r (h r)

theorem wp_true {p : Prog I α} : wp A C p (fun _ _ => True) s := by
  induction p generalizing s with
  | ret a => trivial
  | fail e => trivial
  | get k ih => exact ih s
  | set s' k ih => exact ih
  | ask k ih => exact fun c _ => ih c
  | await q k ih => exact fun _ r _ => ih r
  | queue o k ih => exact fun id => ih id
  | join id k ih => exact fun r => ih r

theorem wp_bind {p : Prog I β} {f : β → Prog I α} :
    wp A C (p >>= f) Q s ↔ wp A C p (fun r t => match r with
      | .ok b => wp A C (f b) Q t
      | .error e => Q (.error e) t) s := by
  change wp A C (p.bind f) Q s ↔ _
  induction p generalizing s with
  | ret a => exact Iff.rfl
  | fail e => exact Iff.rfl
  | get k ih => exact ih s
  | set s' k ih => exact ih
  | ask k ih => exact forall_congr' fun c => imp_congr_right fun _ => ih c
  | await q k ih =>
      exact imp_congr_right fun _ => forall_congr' fun r => imp_congr_right fun _ => ih r
  | queue o k ih => exact forall_congr' fun id => ih id
  | join id k ih => exact forall_congr' fun r => ih r

theorem wp_ofExcept {x : Except I.Error α} : wp A C (Prog.ofExcept x) Q s ↔ Q x s := by
  cases x <;> exact Iff.rfl

theorem wp_tryCatch {p : Prog I α} {h : I.Error → Prog I α} :
    wp A C (p.tryCatch h) Q s ↔ wp A C p (fun r t => match r with
      | .ok a => Q (.ok a) t
      | .error e => wp A C (h e) Q t) s := by
  induction p generalizing s with
  | ret a => exact Iff.rfl
  | fail e => exact Iff.rfl
  | get k ih => exact ih s
  | set s' k ih => exact ih
  | ask k ih => exact forall_congr' fun c => imp_congr_right fun _ => ih c
  | await q k ih =>
      exact imp_congr_right fun _ => forall_congr' fun r => imp_congr_right fun _ => ih r
  | queue o k ih => exact forall_congr' fun id => ih id
  | join id k ih => exact forall_congr' fun r => ih r

end

/-! ## Pre- and postconditions -/

section
variable {I : Interface} {α β : Type}

/-- From a state in `P` the program returns into `Q` or fails into `E`. -/
def Triple (A : Answers I) (C : Contract I) (P : I.State → Prop) (p : Prog I α)
    (Q : α → I.State → Prop) (E : I.Error → I.State → Prop) : Prop :=
  ∀ s, P s → wp A C p (fun r t => match r with
    | .ok a => Q a t
    | .error e => E e t) s

variable {A : Answers I} {C : Contract I} {P : I.State → Prop} {p : Prog I α}
  {Q : α → I.State → Prop} {E : I.Error → I.State → Prop}

theorem Triple.mono {P' : I.State → Prop} {Q' : α → I.State → Prop}
    {E' : I.Error → I.State → Prop} (h : Triple A C P p Q E) (hp : ∀ s, P' s → P s)
    (hq : ∀ a s, Q a s → Q' a s) (he : ∀ e s, E e s → E' e s) : Triple A C P' p Q' E' := by
  intro s hs
  refine wp_mono (h s (hp s hs)) fun r t ht => ?_
  cases r with
  | ok a => exact hq a t ht
  | error e => exact he e t ht

theorem Triple.bind {R : β → I.State → Prop} {p : Prog I β} {f : β → Prog I α}
    (hp : Triple A C P p R E) (hf : ∀ b, Triple A C (R b) (f b) Q E) :
    Triple A C P (p >>= f) Q E := by
  intro s hs
  rw [wp_bind]
  refine wp_mono (hp s hs) fun r t ht => ?_
  cases r with
  | ok b => exact hf b t ht
  | error e => exact ht

theorem Triple.tryCatch {R : I.Error → I.State → Prop} {h : I.Error → Prog I α}
    (hp : Triple A C P p Q R) (hh : ∀ e, Triple A C (R e) (h e) Q E) :
    Triple A C P (p.tryCatch h) Q E := by
  intro s hs
  rw [wp_tryCatch]
  refine wp_mono (hp s hs) fun r t ht => ?_
  cases r with
  | ok a => exact ht
  | error e => exact hh e t ht

/-- Nothing is claimed of the end. -/
theorem triple_true : Triple A C P p (fun _ _ => True) (fun _ _ => True) := by
  intro s _
  refine wp_mono (wp_true (s := s)) fun r t _ => ?_
  cases r with
  | ok a => trivial
  | error e => trivial

theorem triple_pure {a : α} (h : ∀ s, P s → Q a s) : Triple A C P (pure a) Q E := h

theorem triple_ofExcept {x : Except I.Error α} (hq : ∀ a s, x = .ok a → P s → Q a s)
    (he : ∀ e s, x = .error e → P s → E e s) : Triple A C P (.ofExcept x) Q E := by
  cases x with
  | ok a => exact fun s => hq a s rfl
  | error e => exact fun s => he e s rfl

theorem triple_modify {f : I.State → I.State} {Q : Unit → I.State → Prop}
    (h : ∀ s, P s → Q () (f s)) : Triple A C P (.modify f) Q E := h

theorem triple_read {Q : I.State → I.State → Prop} (h : ∀ s, P s → Q s s) :
    Triple A C P .read Q E := h

theorem triple_flags {Q : I.Flags → I.State → Prop} (h : ∀ c s, C.flags c → P s → Q c s) :
    Triple A C P .flags Q E := fun s hs c hc => h c s hc hs

theorem triple_request {q : I.Request} {Q : I.Response q → I.State → Prop}
    (h : ∀ r s, P s → C.issued q s → A.allowed q s r → Q r (A.effect q r s)) :
    Triple A C P (.request q) Q E := fun s hs hi r hr => h r s hs hi hr

theorem triple_enqueue {o : I.Op} {Q : Nat → I.State → Prop} (h : ∀ id s, P s → Q id s) :
    Triple A C P (.enqueue o) Q E := fun s hs id => h id s hs

theorem triple_settled {id : Nat} {Q : Except I.Error Unit → I.State → Prop}
    (h : ∀ r s, P s → Q r s) : Triple A C P (.settled id) Q E := fun s hs r => h r s hs

end

/-! ## Programs that neither queue nor wait for another operation -/

section
variable {I : Interface} {α β : Type}

/-- With flags in `c`, no path of the program queues an operation or waits for one. -/
def Flat (c : I.Flags → Prop) : Prog I α → Prop
  | .ret _ => True
  | .fail _ => True
  | .get k => ∀ s, Flat c (k s)
  | .set _ k => Flat c k
  | .ask k => ∀ f, c f → Flat c (k f)
  | .await _ k => ∀ r, Flat c (k r)
  | .queue _ _ => False
  | .join _ _ => False

variable {c : I.Flags → Prop}

theorem flat_bind {p : Prog I β} {f : β → Prog I α} (hp : Flat c p) (hf : ∀ b, Flat c (f b)) :
    Flat c (p >>= f) := by
  change Flat c (p.bind f)
  induction p with
  | ret a => exact hf a
  | fail e => trivial
  | get k ih => exact fun s => ih s (hp s)
  | set s' k ih => exact ih hp
  | ask k ih => exact fun d hd => ih d (hp d hd)
  | await q k ih => exact fun r => ih r (hp r)
  | queue o k _ => exact hp
  | join id k _ => exact hp

theorem flat_tryCatch {p : Prog I α} {h : I.Error → Prog I α} (hp : Flat c p)
    (hh : ∀ e, Flat c (h e)) : Flat c (p.tryCatch h) := by
  induction p with
  | ret a => trivial
  | fail e => exact hh e
  | get k ih => exact fun s => ih s (hp s)
  | set s' k ih => exact ih hp
  | ask k ih => exact fun d hd => ih d (hp d hd)
  | await q k ih => exact fun r => ih r (hp r)
  | queue o k _ => exact hp
  | join id k _ => exact hp

theorem flat_mono {c' : I.Flags → Prop} {p : Prog I α} (h : ∀ f, c' f → c f) (hp : Flat c p) :
    Flat c' p := by
  induction p with
  | ret a => trivial
  | fail e => trivial
  | get k ih => exact fun s => ih s (hp s)
  | set s' k ih => exact ih hp
  | ask k ih => exact fun d hd => ih d (hp d (h d hd))
  | await q k ih => exact fun r => ih r (hp r)
  | queue o k _ => exact hp
  | join id k _ => exact hp

@[simp] theorem flat_pure (a : α) : Flat c (pure a : Prog I α) := trivial

@[simp] theorem flat_modify (f : I.State → I.State) : Flat c (Prog.modify f) := fun _ => trivial

@[simp] theorem flat_read : Flat c (Prog.read : Prog I I.State) := fun _ => trivial

@[simp] theorem flat_request (q : I.Request) : Flat c (Prog.request q) := fun _ => trivial

@[simp] theorem flat_flags : Flat c (Prog.flags : Prog I I.Flags) := fun _ _ => trivial

@[simp] theorem flat_ofExcept (x : Except I.Error α) : Flat c (Prog.ofExcept x : Prog I α) := by
  cases x <;> trivial

end

end DshClashProxy.Lib.Async
