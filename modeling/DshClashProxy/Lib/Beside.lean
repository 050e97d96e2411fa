import DshClashProxy.Lib.Serial

/-!
# A program beside the queue

One program at a time can run beside a machine's queue, as the handler of a request does. It
acts on the same state, and while either of the two waits the other may go on.

The rule for the two together is rely and guarantee. Each stretch of a program, from one
await to the next, keeps the guarantee, and in return the program may rely on what the other
one does while it waits. `along` is the weakest precondition under such terms. What one
program guarantees is what the other relies on.
-/
namespace DshClashProxy.Lib.Beside

open Lib.Async Lib.Serial
open Relation (ReflTransGen)

/-- What a program relies on while it waits, what it guarantees itself, and what holds where
it goes on. -/
structure Terms (I : Interface) where
  rely : I.State → I.State → Prop
  guarantee : I.State → I.State → Prop
  resumes : I.State → Prop
  rely_refl : ∀ s, rely s s
  rely_trans : ∀ {s t u}, rely s t → rely t u → rely s u
  guarantee_refl : ∀ s, guarantee s s
  guarantee_trans : ∀ {s t u}, guarantee s t → guarantee t u → guarantee s u

/-- The terms of the other program. -/
def Terms.dual {I : Interface} (T : Terms I) : Terms I where
  rely := T.guarantee
  guarantee := T.rely
  resumes _ := True
  rely_refl := T.guarantee_refl
  rely_trans := T.guarantee_trans
  guarantee_refl := T.rely_refl
  guarantee_trans := T.rely_trans

section
variable {I : Interface} (A : Answers I) (T : Terms I) {α β : Type}

/-- `P` holds wherever a program waiting since `s` goes on. -/
def Goes (P : I.State → Prop) (s : I.State) : Prop := ∀ t, T.rely s t → T.resumes t → P t

/-- `P` holds wherever a program waiting since `s` goes on with a response. -/
def Awaits (q : I.Request) (P : I.Response q → I.State → Prop) (s : I.State) : Prop :=
  ∀ t, T.rely s t → ∀ r, A.allowed q t r →
    T.guarantee t (A.effect q r t) ∧ Goes T (P r) (A.effect q r t)

/-- Every finished run of the program ends in `Q`, and every stretch that ends at an await
keeps the guarantee. The first state is the one the stretch began in. -/
def along : Prog I α → (Except I.Error α → I.State → I.State → Prop) →
    I.State → I.State → Prop
  | .ret a, Q, s₀, s => Q (.ok a) s₀ s
  | .fail e, Q, s₀, s => Q (.error e) s₀ s
  | .get k, Q, s₀, s => along (k s) Q s₀ s
  | .set s' k, Q, s₀, _ => along k Q s₀ s'
  | .ask k, Q, s₀, s => ∀ c, along (k c) Q s₀ s
  | .await q k, Q, s₀, s =>
      T.guarantee s₀ s ∧ Awaits A T q (fun r t => along (k r) Q t t) s
  | .queue _ k, Q, s₀, s => ∀ id, along (k id) Q s₀ s
  | .join _ k, Q, s₀, s => T.guarantee s₀ s ∧ ∀ r, Goes T (fun t => along (k r) Q t t) s

variable {A T} {Q Q' : Except I.Error α → I.State → I.State → Prop} {s₀ s t : I.State}

theorem Goes.mono {P P' : I.State → Prop} (h : Goes T P s) (hp : ∀ t, P t → P' t) :
    Goes T P' s := fun t ht hr => hp t (h t ht hr)

theorem Goes.rely {P : I.State → Prop} (h : Goes T P s) (ht : T.rely s t) : Goes T P t :=
  fun u hu hr => h u (T.rely_trans ht hu) hr

theorem Awaits.mono {q : I.Request} {P P' : I.Response q → I.State → Prop}
    (h : Awaits A T q P s) (hp : ∀ r t, P r t → P' r t) : Awaits A T q P' s := by
  intro t ht r ha
  obtain ⟨hg, hgoes⟩ := h t ht r ha
  exact ⟨hg, hgoes.mono (hp r)⟩

theorem Awaits.rely {q : I.Request} {P : I.Response q → I.State → Prop}
    (h : Awaits A T q P s) (ht : T.rely s t) : Awaits A T q P t :=
  fun u hu => h u (T.rely_trans ht hu)

theorem along_mono {p : Prog I α} (h : along A T p Q s₀ s) (hq : ∀ r s t, Q r s t → Q' r s t) :
    along A T p Q' s₀ s := by
  induction p generalizing s₀ s with
  | ret a => exact hq _ _ _ h
  | fail e => exact hq _ _ _ h
  | get k ih => exact ih s h
  | set s' k ih => exact ih h
  | ask k ih => exact fun c => ih c (h c)
  | await q k ih => exact ⟨h.1, h.2.mono fun r t ht => ih r ht⟩
  | queue o k ih => exact fun id => ih id (h id)
  | join id k ih => exact ⟨h.1, fun r => (h.2 r).mono fun t ht => ih r ht⟩

theorem along_bind {p : Prog I β} {f : β → Prog I α}
    (h : along A T p (fun r s t => match r with
      | .ok b => along A T (f b) Q s t
      | .error e => Q (.error e) s t) s₀ s) : along A T (p >>= f) Q s₀ s := by
  show along A T (p.bind f) Q s₀ s
  induction p generalizing s₀ s with
  | ret a => exact h
  | fail e => exact h
  | get k ih => exact ih s h
  | set s' k ih => exact ih h
  | ask k ih => exact fun c => ih c (h c)
  | await q k ih => exact ⟨h.1, h.2.mono fun r t ht => ih r ht⟩
  | queue o k ih => exact fun id => ih id (h id)
  | join id k ih => exact ⟨h.1, fun r => (h.2 r).mono fun t ht => ih r ht⟩

theorem along_tryCatch {p : Prog I α} {h : I.Error → Prog I α}
    (hp : along A T p (fun r s t => match r with
      | .ok a => Q (.ok a) s t
      | .error e => along A T (h e) Q s t) s₀ s) : along A T (p.tryCatch h) Q s₀ s := by
  induction p generalizing s₀ s with
  | ret a => exact hp
  | fail e => exact hp
  | get k ih => exact ih s hp
  | set s' k ih => exact ih hp
  | ask k ih => exact fun c => ih c (hp c)
  | await q k ih => exact ⟨hp.1, hp.2.mono fun r t ht => ih r ht⟩
  | queue o k ih => exact fun id => ih id (hp id)
  | join id k ih => exact ⟨hp.1, fun r => (hp.2 r).mono fun t ht => ih r ht⟩

/-- Every stretch of the program keeps the guarantee. -/
def Keeps (A : Answers I) (T : Terms I) (p : Prog I α) : Prop :=
  ∀ s₀ s, T.guarantee s₀ s → along A T p (fun _ => T.guarantee) s₀ s

theorem keeps_bind {p : Prog I β} {f : β → Prog I α} (hp : Keeps A T p)
    (hf : ∀ b, Keeps A T (f b)) : Keeps A T (p >>= f) := by
  intro s₀ s h
  apply along_bind
  apply along_mono (hp s₀ s h)
  intro r t u hu
  cases r with
  | ok b => exact hf b t u hu
  | error e => exact hu

theorem keeps_tryCatch {p : Prog I α} {h : I.Error → Prog I α} (hp : Keeps A T p)
    (hh : ∀ e, Keeps A T (h e)) : Keeps A T (p.tryCatch h) := by
  intro s₀ s hs
  apply along_tryCatch
  apply along_mono (hp s₀ s hs)
  intro r t u hu
  cases r with
  | ok a => exact hu
  | error e => exact hh e t u hu

theorem keeps_pure (a : α) : Keeps A T (pure a : Prog I α) := fun _ _ h => h

theorem keeps_ofExcept (x : Except I.Error α) : Keeps A T (Prog.ofExcept x) := by
  cases x with
  | ok a => exact fun _ _ h => h
  | error e => exact fun _ _ h => h

theorem keeps_modify {f : I.State → I.State} (hf : ∀ s, T.guarantee s (f s)) :
    Keeps A T (Prog.modify f) := fun _ s h => T.guarantee_trans h (hf s)

theorem keeps_read : Keeps A T (Prog.read : Prog I I.State) := fun _ _ h => h

theorem keeps_flags : Keeps A T (Prog.flags : Prog I I.Flags) := fun _ _ h _ => h

theorem keeps_request {q : I.Request}
    (hq : ∀ s r, A.allowed q s r → T.guarantee s (A.effect q r s)) :
    Keeps A T (Prog.request q) := by
  intro s₀ s h
  refine ⟨h, fun t _ r ha => ⟨hq t r ha, ?_⟩⟩
  exact fun u _ _ => T.guarantee_refl u

theorem keeps_enqueue (o : I.Op) : Keeps A T (Prog.enqueue o) := fun _ _ h _ => h

theorem keeps_settled (id : Nat) : Keeps A T (Prog.settled id : Prog I (Except I.Error Unit)) :=
  fun _ _ h => ⟨h, fun _ u _ _ => T.guarantee_refl u⟩

end

/-! ## The machine under such terms -/

section
variable {I : Interface} {A : Answers I} {T : Terms I} {P : I.State → Prop}

/-- The rest of a started program keeps the guarantee and ends in `P`. -/
def Rest (A : Answers I) (T : Terms I) (P : I.State → Prop) : Susp I → I.State → Prop
  | .issued q k, s =>
      Awaits A T q (fun r t => along A T (k r) (fun _ u v => T.guarantee u v ∧ P v) t t) s
  | .ready p, s => Goes T (fun t => along A T p (fun _ u v => T.guarantee u v ∧ P v) t t) s
  | .joining _ k, s =>
      ∀ r, Goes T (fun t => along A T (k r) (fun _ u v => T.guarantee u v ∧ P v) t t) s

theorem Rest.rely {u : Susp I} {s t : I.State} (h : Rest A T P u s) (ht : T.rely s t) :
    Rest A T P u t := by
  cases u with
  | issued q k => exact Awaits.rely h ht
  | ready p => exact Goes.rely h ht
  | joining id k => exact fun r => (h r).rely ht

theorem advance_keeps {id : Nat} {o : I.Op} {p : Prog I Unit} {m : Machine I} {s₀ : I.State}
    (h : along A T p (fun _ u v => T.guarantee u v ∧ P v) s₀ m.shared) :
    T.guarantee s₀ (Machine.advance id o p m).shared ∧
      ∀ t ∈ (Machine.advance id o p m).running,
        Rest A T P t.susp (Machine.advance id o p m).shared := by
  induction p generalizing m with
  | ret a => exact ⟨h.1, nofun⟩
  | fail e => exact ⟨h.1, nofun⟩
  | get k ih => exact ih m.shared h
  | set s k ih => exact ih (m := { m with shared := s }) h
  | ask k ih => exact ih m.flags (h m.flags)
  | await q k _ =>
      refine ⟨h.1, fun t ht => ?_⟩
      obtain rfl := Option.some.inj ht
      exact h.2
  | queue o' k ih => exact ih m.fresh (m := m.enqueue o') (h m.fresh)
  | join j k _ =>
      refine ⟨h.1, fun t ht => ?_⟩
      obtain rfl := Option.some.inj ht
      exact h.2

/-- The rest of the running operation keeps the guarantee. -/
def Keeping (A : Answers I) (T : Terms I) (m : Machine I) : Prop :=
  ∀ t ∈ m.running, Rest A T (fun _ => True) t.susp m.shared

theorem Keeping.rely {m : Machine I} {t : I.State} (h : Keeping A T m)
    (ht : T.rely m.shared t) : Keeping A T { m with shared := t } :=
  fun u hu => (h u hu).rely ht

variable {S : System I}

/-- A step of the machine keeps the guarantee, where it goes on as agreed. -/
theorem step_keeps {m m' : Machine I} {l : Label S.Call}
    (hb : ∀ o, Keeps S.toAnswers T (S.body o)) (h : Step S m l m')
    (hl : l = .resume → T.resumes m.shared) (hm : Keeping S.toAnswers T m) :
    T.guarantee m.shared m'.shared ∧ Keeping S.toAnswers T m' := by
  cases h with
  | call c _ =>
      rw [Machine.receive]
      refine ⟨?_, ?_⟩
      · rw [enqueue_all_shared]
        exact T.guarantee_refl _
      · intro t ht
        rw [enqueue_all_running] at ht
        rw [enqueue_all_shared]
        exact hm t ht
  | @begin id o rest hr hp =>
      apply advance_keeps (m := { m with pending := rest })
      apply along_mono (hb o _ _ (T.guarantee_refl m.shared))
      exact fun _ _ _ ht => ⟨ht, trivial⟩
  | @answer id o q k hr r ha =>
      obtain ⟨hg, hgoes⟩ := (show Awaits S.toAnswers T q _ m.shared from hm _ hr) m.shared
        (T.rely_refl _) r ha
      refine ⟨hg, fun t ht => ?_⟩
      obtain rfl := Option.some.inj ht
      exact hgoes
  | resume hr =>
      apply advance_keeps
      exact (show Goes T _ m.shared from hm _ hr) m.shared (T.rely_refl _) (hl rfl)
  | @joined id o j k hr u hu hj =>
      refine ⟨T.guarantee_refl _, fun t ht => ?_⟩
      obtain rfl := Option.some.inj ht
      exact (show ∀ r, Goes T _ m.shared from hm _ hr) u.result

end

/-! ## The machine and a program beside it -/

structure Both (I : Interface) where
  machine : Machine I
  /-- Where the program beside the queue stands, if there is one. -/
  aside : Option (Susp I) := none

section
variable {I : Interface}

/-- Run the program beside the queue to its next await, or to its end. -/
def Both.turn : Prog I Unit → Both I → Both I
  | .ret _, b => { b with aside := none }
  | .fail _, b => { b with aside := none }
  | .get k, b => turn (k b.machine.shared) b
  | .set s k, b => turn k { b with machine := { b.machine with shared := s } }
  | .ask k, b => turn (k b.machine.flags) b
  | .await q k, b => { b with aside := some (.issued q k) }
  | .queue o k, b => turn (k b.machine.fresh) { b with machine := b.machine.enqueue o }
  | .join j k, b => { b with aside := some (.joining j k) }

/-- A step of the machine has its label, and one of the program beside it none. -/
inductive Both.Step (S : System I) (A : Answers I) (starts : I.State → Prog I Unit → Prop) :
    Both I → Option (Label S.Call) → Both I → Prop where
  | queue {b : Both I} {l : Label S.Call} {m : Machine I} (h : Serial.Step S b.machine l m) :
      Both.Step S A starts b (some l) { b with machine := m }
  | start {b : Both I} {p : Prog I Unit} (hn : b.aside = none)
      (hp : starts b.machine.shared p) : Both.Step S A starts b none (b.turn p)
  | answer {b : Both I} {q : I.Request} {k : I.Response q → Prog I Unit}
      (ha : b.aside = some (.issued q k)) (r : I.Response q) (hr : A.allowed q b.machine.shared r) :
      Both.Step S A starts b none
        ⟨{ b.machine with shared := A.effect q r b.machine.shared }, some (.ready (k r))⟩
  | resume {b : Both I} {p : Prog I Unit} (ha : b.aside = some (.ready p)) :
      Both.Step S A starts b none (b.turn p)
  | joined {b : Both I} {j : Nat} {k : Except I.Error Unit → Prog I Unit}
      (ha : b.aside = some (.joining j k)) {t : Settled I} (ht : t ∈ b.machine.settled)
      (hj : t.id = j) : Both.Step S A starts b none { b with aside := some (.ready (k t.result)) }

/-- Runs whose every step meets a condition on the label and the machine before it. -/
def Both.RunsIf (S : System I) (A : Answers I) (starts : I.State → Prog I Unit → Prop)
    (cond : Machine I → Option (Label S.Call) → Prop) : Both I → Both I → Prop :=
  ReflTransGen fun b b' => ∃ l, Both.Step S A starts b l b' ∧ cond b.machine l

variable {S : System I} {A : Answers I} {T : Terms I} {P Inv : I.State → Prop}
  {starts : I.State → Prog I Unit → Prop} {b b' : Both I}

/-- Both programs keep to their terms, and `P` holds while nothing runs beside the queue. -/
structure Both.Fair (S : System I) (A : Answers I) (T : Terms I) (P : I.State → Prop)
    (b : Both I) : Prop where
  keeping : Keeping S.toAnswers T b.machine
  ended : b.aside = none → P b.machine.shared
  rest : ∀ u ∈ b.aside, Rest A T.dual P u b.machine.shared

@[simp] theorem turn_running (p : Prog I Unit) (b : Both I) :
    (b.turn p).machine.running = b.machine.running := by
  induction p generalizing b with
  | ret a => rfl
  | fail e => rfl
  | get k ih => exact ih b.machine.shared b
  | set s k ih => exact ih _
  | ask k ih => exact ih b.machine.flags b
  | await q k _ => rfl
  | queue o k ih => exact ih b.machine.fresh _
  | join j k _ => rfl

theorem turn_keeps {p : Prog I Unit} {s₀ : I.State}
    (h : along A T p (fun _ u v => T.guarantee u v ∧ P v) s₀ b.machine.shared) :
    T.guarantee s₀ (b.turn p).machine.shared ∧
      ((b.turn p).aside = none → P (b.turn p).machine.shared) ∧
      ∀ u ∈ (b.turn p).aside, Rest A T P u (b.turn p).machine.shared := by
  induction p generalizing b with
  | ret a => exact ⟨h.1, fun _ => h.2, nofun⟩
  | fail e => exact ⟨h.1, fun _ => h.2, nofun⟩
  | get k ih => exact ih b.machine.shared h
  | set s k ih => exact ih (b := { b with machine := { b.machine with shared := s } }) h
  | ask k ih => exact ih b.machine.flags (h b.machine.flags)
  | await q k _ =>
      refine ⟨h.1, nofun, fun u hu => ?_⟩
      obtain rfl := Option.some.inj hu
      exact h.2
  | queue o k ih =>
      exact ih b.machine.fresh (b := { b with machine := b.machine.enqueue o })
        (h b.machine.fresh)
  | join j k _ =>
      refine ⟨h.1, nofun, fun u hu => ?_⟩
      obtain rfl := Option.some.inj hu
      exact h.2

/-- A turn of the program beside the queue leaves the machine's operation its terms. -/
theorem Both.Fair.turned {p : Prog I Unit} (h : Both.Fair S A T P b)
    (hp : along A T.dual p (fun _ u v => T.dual.guarantee u v ∧ P v) b.machine.shared
      b.machine.shared) :
    T.rely b.machine.shared (b.turn p).machine.shared ∧ Both.Fair S A T P (b.turn p) := by
  obtain ⟨hrely, hended, hrest⟩ := turn_keeps hp
  refine ⟨hrely, ?_, hended, hrest⟩
  intro t ht
  rw [turn_running] at ht
  exact (h.keeping t ht).rely hrely

/-- One step of the two keeps the terms of both. -/
theorem both_step {l : Option (Label S.Call)} (hb : ∀ o, Keeps S.toAnswers T (S.body o))
    (hs : ∀ s p, starts s p →
      along A T.dual p (fun _ u v => T.dual.guarantee u v ∧ P v) s s)
    (hP : ∀ s t, P s → T.guarantee s t → P t) (h : Both.Step S A starts b l b')
    (hl : l = some .resume → T.resumes b.machine.shared) (hf : Both.Fair S A T P b) :
    (T.guarantee b.machine.shared b'.machine.shared ∨
      T.rely b.machine.shared b'.machine.shared) ∧ Both.Fair S A T P b' := by
  cases h with
  | queue hstep =>
      obtain ⟨hg, hkeeping⟩ := step_keeps hb hstep (fun he => hl (congrArg some he)) hf.keeping
      refine ⟨Or.inl hg, hkeeping, fun hn => hP _ _ (hf.ended hn) hg, fun u hu => ?_⟩
      exact (hf.rest u hu).rely hg
  | start hn hp =>
      obtain ⟨hr, hfair⟩ := hf.turned (hs _ _ hp)
      exact ⟨Or.inr hr, hfair⟩
  | @answer q k ha r hr =>
      obtain ⟨hg, hgoes⟩ := (show Awaits A T.dual q _ b.machine.shared from hf.rest _ ha)
        b.machine.shared (T.dual.rely_refl _) r hr
      refine ⟨Or.inr hg, hf.keeping.rely hg, nofun, fun u hu => ?_⟩
      obtain rfl := Option.some.inj hu
      exact hgoes
  | resume ha =>
      obtain ⟨hr, hfair⟩ := hf.turned ((show Goes T.dual _ b.machine.shared from hf.rest _ ha)
        b.machine.shared (T.dual.rely_refl _) trivial)
      exact ⟨Or.inr hr, hfair⟩
  | @joined j k ha t ht hj =>
      refine ⟨Or.inr (T.rely_refl _), hf.keeping, nofun, fun u hu => ?_⟩
      obtain rfl := Option.some.inj hu
      exact (show ∀ r, Goes T.dual _ b.machine.shared from hf.rest _ ha) t.result

/-- Programs that keep to their terms keep to them along every run, and with them whatever
both kinds of stretches keep. -/
theorem both_runs {cond : Machine I → Option (Label S.Call) → Prop}
    (hb : ∀ o, Keeps S.toAnswers T (S.body o))
    (hs : ∀ s p, starts s p →
      along A T.dual p (fun _ u v => T.dual.guarantee u v ∧ P v) s s)
    (hP : ∀ s t, P s → T.guarantee s t → P t)
    (hInv : ∀ s t, Inv s → T.guarantee s t ∨ T.rely s t → Inv t)
    (hc : ∀ m, cond m (some .resume) → T.resumes m.shared)
    (h : Both.RunsIf S A starts cond b b') (hf : Both.Fair S A T P b)
    (hi : Inv b.machine.shared) : Both.Fair S A T P b' ∧ Inv b'.machine.shared := by
  induction h with
  | refl => exact ⟨hf, hi⟩
  | tail _ hl ih =>
      obtain ⟨l, hstep, hcond⟩ := hl
      obtain ⟨hor, hfair⟩ := both_step hb hs hP hstep (fun he => hc _ (he ▸ hcond)) ih.1
      exact ⟨hfair, hInv _ _ ih.2 hor⟩

/-- The step of the program beside the queue, when requests are answered by `reply`. -/
def Both.next (A : Answers I) (reply : (q : I.Request) → I.State → I.Response q) (b : Both I) :
    Both I :=
  match b.aside with
  | some (.issued q k) =>
      { machine := { b.machine with
          shared := A.effect q (reply q b.machine.shared) b.machine.shared }
        aside := some (.ready (k (reply q b.machine.shared))) }
  | some (.ready p) => b.turn p
  | _ => b

def Both.follow (A : Answers I) (reply : (q : I.Request) → I.State → I.Response q) :
    Nat → Both I → Both I
  | 0, b => b
  | n + 1, b => follow A reply n (b.next A reply)

theorem follow_runs {reply : (q : I.Request) → I.State → I.Response q}
    {cond : Machine I → Option (Label S.Call) → Prop} (hc : ∀ m, cond m none)
    (hr : ∀ q s, A.allowed q s (reply q s)) (n : Nat) (b : Both I) :
    Both.RunsIf S A starts cond b (b.follow A reply n) := by
  induction n generalizing b with
  | zero => exact .refl
  | succ n ih =>
      have hnext : Both.RunsIf S A starts cond b (b.next A reply) := by
        unfold Both.next
        split
        · rename_i ha
          exact .single ⟨none, .answer ha _ (hr _ _), hc _⟩
        · rename_i ha
          exact .single ⟨none, .resume ha, hc _⟩
        · exact .refl
      exact hnext.trans (ih _)

/-- A run of the machine alone. -/
theorem queue_runs {cond : Machine I → Option (Label S.Call) → Prop} {m m' : Machine I}
    (h : Serial.RunsIf S (fun m l _ => cond m (some l)) m m') (u : Option (Susp I)) :
    Both.RunsIf S A starts cond ⟨m, u⟩ ⟨m', u⟩ := by
  induction h with
  | refl => exact .refl
  | tail _ hl ih =>
      obtain ⟨l, hstep, hcond⟩ := hl
      exact ih.tail ⟨some l, .queue (b := ⟨_, u⟩) hstep, hcond⟩

end

end DshClashProxy.Lib.Beside
