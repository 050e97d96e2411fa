import Mathlib.Logic.Basic

/-!
# Programs that stop at requests

A program names a request, stops there, and goes on with the answer it is given. A machine
answers some requests at once, and the program runs on until one of them has to wait. A handler
gives every request a meaning in a monad, and so the program one.
-/
namespace DshClashProxy.Lib.Resumption

inductive Program {Request : Type} (Answer : Request → Type) (ε α : Type) : Type where
  | done (a : α)
  | fail (e : ε)
  | ask (r : Request) (next : Answer r → Program Answer ε α)

namespace Program
variable {Request : Type} {Answer : Request → Type} {ε ε' α β : Type}

protected def bind : Program Answer ε α → (α → Program Answer ε β) → Program Answer ε β
  | done a, f => f a
  | fail e, _ => fail e
  | ask r next, f => ask r fun a => (next a).bind f

instance : Monad (Program Answer ε) where
  pure := done
  bind := Program.bind

/-- The request alone. -/
def perform (r : Request) : Program Answer ε (Answer r) := ask r done

def ofExcept : Except ε α → Program Answer ε α
  | .ok a => done a
  | .error e => fail e

def mapError (f : ε → ε') : Program Answer ε α → Program Answer ε' α
  | done a => done a
  | fail e => fail (f e)
  | ask r next => ask r fun a => (next a).mapError f

end Program

/-! ## Machines -/

/-- How far a program has come. -/
inductive Status {Request : Type} (Answer : Request → Type) (ε α : Type) : Type where
  | waiting (r : Request) (next : Answer r → Program Answer ε α)
  | returned (a : α)
  | failed (e : ε)

section
variable {Request : Type} {Answer : Request → Type} {ε α β σ : Type}

/-- What is left of the program. -/
def Status.rest : Status Answer ε α → Program Answer ε α
  | waiting r next => .ask r next
  | returned a => .done a
  | failed e => .fail e

/-- A condition on the state where a program stands: one while a request waits, and one when
none does. -/
def Status.At (keeps : σ → Prop) (stuck : σ → Request → Prop) (s : σ) : Status Answer ε α → Prop
  | waiting r _ => stuck s r
  | returned _ => keeps s
  | failed _ => keeps s

/-- Run until a request is not served at once. A machine may refuse a request, and the program
then fails. -/
def advance (serve : σ → (r : Request) → σ × Option (Except ε (Answer r))) :
    σ → Program Answer ε α → σ × Status Answer ε α
  | s, .done a => (s, .returned a)
  | s, .fail e => (s, .failed e)
  | s, .ask r next =>
      match serve s r with
      | (s, none) => (s, .waiting r next)
      | (s, some (.ok a)) => advance serve s (next a)
      | (s, some (.error e)) => (s, .failed e)

end

/-! ## Handlers -/

/-- What requests and failures do in a monad. Behind a failure nothing is run. -/
structure Handler {Request : Type} (Answer : Request → Type) (ε : Type) (m : Type → Type)
    [Monad m] where
  answer : (r : Request) → m (Answer r)
  raise : {α : Type} → ε → m α
  raise_bind : ∀ {α β : Type} (e : ε) (f : α → m β), raise e >>= f = raise e

namespace Program
variable {Request : Type} {Answer : Request → Type} {ε α β : Type} {m : Type → Type} [Monad m]

def interpret (h : Handler Answer ε m) : Program Answer ε α → m α
  | done a => pure a
  | fail e => h.raise e
  | ask r next => h.answer r >>= fun a => (next a).interpret h

variable (h : Handler Answer ε m)

/-- The interpretation of a sequence is the sequence of the interpretations. -/
theorem interpret_bind [LawfulMonad m] (p : Program Answer ε α)
    (f : α → Program Answer ε β) :
    (p >>= f).interpret h = p.interpret h >>= fun a => (f a).interpret h := by
  induction p with
  | done a => exact (LawfulMonad.pure_bind (m := m) a fun a => (f a).interpret h).symm
  | fail e => exact (h.raise_bind e _).symm
  | ask r next ih =>
      change (h.answer r >>= fun a => (next a >>= f).interpret h) =
        (h.answer r >>= fun a => (next a).interpret h) >>= _
      simp only [ih, bind_assoc]

theorem interpret_perform [LawfulMonad m] (r : Request) :
    (perform r : Program Answer ε (Answer r)).interpret h = h.answer r :=
  bind_pure (h.answer r)

section
variable {σ γ : Type} (serve : σ → (r : Request) → σ × Option (Except ε (Answer r)))
  (keeps : σ → Prop) (stuck : σ → Request → Prop) (see : σ → m α → γ)

/-- In the states of which `keeps` holds the machine answers as the handler does, and a request
that it leaves waiting changes nothing. `see` is what can be seen of a program in a state, and
`stuck` holds where a request waits. -/
structure Answers : Prop where
  waits : ∀ s r s', keeps s → serve s r = (s', none) → stuck s' r ∧ ∀ p, see s p = see s' p
  served : ∀ s r s' a, keeps s → serve s r = (s', some (.ok a)) →
    keeps s' ∧ ∀ f : Answer r → m α, see s (h.answer r >>= f) = see s' (f a)
  refuses : ∀ s r s' e, keeps s → serve s r ≠ (s', some (.error e))

variable {h serve keeps stuck see}

/-- Such a machine brings a program on without a change to what it does. -/
theorem Answers.advance (hanswers : Answers h serve keeps stuck see) {s : σ} (hs : keeps s)
    (p : Program Answer ε α) :
    (advance serve s p).2.At keeps stuck (advance serve s p).1 ∧ see s (p.interpret h) =
      see (advance serve s p).1 ((advance serve s p).2.rest.interpret h) := by
  induction p generalizing s with
  | done a => exact ⟨hs, rfl⟩
  | fail e => exact ⟨hs, rfl⟩
  | ask r next ih =>
      cases hserve : serve s r with
      | mk s' served =>
          rw [Resumption.advance, hserve]
          cases served with
          | none =>
              obtain ⟨hstuck, hsee⟩ := hanswers.waits s r s' hs hserve
              exact ⟨hstuck, hsee _⟩
          | some served =>
              cases served with
              | error e => exact absurd hserve (hanswers.refuses s r s' e hs)
              | ok a =>
                  obtain ⟨hkeeps, hsee⟩ := hanswers.served s r s' a hs hserve
                  obtain ⟨hstatus, hrest⟩ := ih a hkeeps
                  exact ⟨hstatus, (hsee _).trans hrest⟩

end

end Program

end DshClashProxy.Lib.Resumption
