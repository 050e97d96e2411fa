import DshClashProxy.Core.Boot

/-!
# What a boot builds

A boot builds a new engine from the section it is given and from a subscription. It loads
one only if none is loaded yet, so the subscription in use can have come from another
section's URL. A running manager always has one.
-/
namespace DshClashProxy.Core.Build

open Js Manager
open Lib.Async Lib.Serial
open Boot (free Replies Spec spec_seq)

variable {host : Host} {G : Replies} {sub : Subscription} {source : Option Text}
  {P : World → Prop}

/-! ## Properties of the build -/

/-- The subscription in use, where it came from, and the engine built from it. -/
def build (w : World) : Option Subscription × Option Text × Option Rules.RuleEngine :=
  (w.subscription, w.fetchedFrom, w.engine)

theorem effect_build (q : Request) (r : q.Response) (w : World) :
    (effect q r w).state = w.state ∧ build (effect q r w) = build w := by
  unfold effect
  split <;> exact ⟨rfl, rfl⟩

/-- A property that replies leave alone. -/
def Unaffected (P : World → Prop) : Prop := ∀ q (r : q.Response) w, P w → P (effect q r w)

/-- A property of nothing but the build. -/
def OfBuild (P : World → Prop) : Prop := ∀ w w', build w' = build w → P w → P w'

theorem OfBuild.unaffected (hP : OfBuild P) : Unaffected P :=
  fun q r w h => hP w _ (effect_build q r w).2 h

theorem keeps_request (hP : Unaffected P) (q : Request) {E : Text → World → Prop} :
    Spec host G P (request q) (fun _ => P) E := by
  apply triple_request
  intro r w h _ _
  exact hP q r w h

theorem keeps_rethrow {α : Type} (x : Except Text α) :
    Spec host G P (Prog.ofExcept x) (fun _ => P) (fun _ => P) :=
  triple_ofExcept (fun _ _ _ h => h) fun _ _ _ h => h

/-- A request whose failure is rethrown. -/
theorem keeps_answer {α β : Type} {p : Program (Except Text β)} {f : β → Program α}
    {Q : α → World → Prop}
    (hp : Spec host G P p (fun _ => P) (fun _ => P))
    (hf : ∀ b, Spec host G P (f b) Q (fun _ => P)) :
    Spec host G P (p >>= fun r => Prog.ofExcept r >>= f) Q (fun _ => P) := by
  apply spec_seq _ hp
  intro r
  exact spec_seq _ (keeps_rethrow r) hf

theorem keeps_modify {E : Text → World → Prop} (hP : OfBuild P) {f : World → World}
    (hf : ∀ w, build (f w) = build w) : Spec host G P (Prog.modify f) (fun _ => P) E := by
  apply triple_modify
  intro w h
  exact hP w _ (hf w) h

theorem keeps_read {E : Text → World → Prop} :
    Spec host G P (Prog.read : Program World) (fun _ => P) E := triple_read fun _ h => h

theorem keeps_awaitUndoDispatcher (hP : OfBuild P) {E : Text → World → Prop} :
    Spec host G P awaitUndoDispatcher (fun _ => P) E := by
  apply spec_seq (fun _ => P)
  · exact keeps_modify hP fun _ => rfl
  intro _
  apply spec_seq _ (keeps_request hP.unaffected .settle)
  intro _
  exact keeps_modify hP fun _ => rfl

theorem keeps_awaitUndoEnv (hP : OfBuild P) {E : Text → World → Prop} :
    Spec host G P awaitUndoEnv (fun _ => P) E := by
  apply spec_seq (fun _ => P)
  · exact keeps_modify hP fun _ => rfl
  intro _
  apply spec_seq _ (keeps_request hP.unaffected .settle)
  intro _
  exact keeps_modify hP fun _ => rfl

theorem keeps_bootFailed (hP : OfBuild P) (error : Text) {E : Text → World → Prop} :
    Spec host G P (bootFailed error) (fun _ => P) E := by
  apply spec_seq (fun _ => P)
  · exact keeps_modify hP fun _ => rfl
  intro _
  apply spec_seq (fun _ => P)
  · exact keeps_modify hP fun _ => rfl
  intro _
  apply spec_seq _ (keeps_awaitUndoDispatcher hP)
  intro _
  exact keeps_awaitUndoEnv hP

theorem keeps_loadState (hP : OfBuild P) {E : Text → World → Prop} :
    Spec host G P loadState (fun _ => P) E := by
  apply spec_seq _ (keeps_request hP.unaffected .readState)
  intro r
  split
  · exact keeps_modify hP fun _ => rfl
  · exact triple_pure fun _ h => h

/-- This subscription is in use, and came from there. -/
structure Uses (sub : Subscription) (source : Option Text) (w : World) : Prop where
  subscription : w.subscription = some sub
  fetchedFrom : w.fetchedFrom = source

/-- It is in use, and the engine was built from it and this section. -/
structure Built (host : Host) (config : Config) (sub : Subscription) (source : Option Text)
    (w : World) : Prop extends Uses sub source w where
  engine : w.engine = some (newEngine host config sub)

variable {config : Config}

theorem ofBuild_uses : OfBuild (Uses sub source) := by
  intro w w' hw h
  simp only [build, Prod.mk.injEq] at hw
  obtain ⟨hs, hf, -⟩ := hw
  constructor
  · exact hs.trans h.subscription
  · exact hf.trans h.fetchedFrom

theorem ofBuild_built : OfBuild (Built host config sub source) := by
  intro w w' hw h
  have huses := ofBuild_uses w w' hw h.toUses
  simp only [build, Prod.mk.injEq] at hw
  exact ⟨huses, hw.2.2.trans h.engine⟩

/-! ## Booting with a subscription -/

/-- A launch has built its engine whatever comes of it afterwards. -/
theorem launch_builds :
    Spec host G (Uses sub source) (launch host config sub)
      (fun _ => Built host config sub source) (fun _ => Built host config sub source) := by
  have keeps {f : World → World} (hf : ∀ w, build (f w) = build w) :
      Spec host G (Built host config sub source) (Prog.modify f)
        (fun _ => Built host config sub source) (fun _ => Built host config sub source) :=
    keeps_modify ofBuild_built hf
  apply spec_seq _ keeps_read
  intro v
  apply spec_seq (fun _ => Built host config sub source)
  · exact triple_modify fun w h => ⟨⟨h.subscription, h.fetchedFrom⟩, rfl⟩
  intro _
  apply keeps_answer (keeps_request ofBuild_built.unaffected _)
  intro port
  apply spec_seq _ (keeps (f := fun w => { w with port := port }) fun _ => rfl)
  intro _
  apply spec_seq _ keeps_read
  intro u
  apply spec_seq _ (keeps_rethrow _)
  intro injected
  apply spec_seq (fun _ => Built host config sub source)
  · exact keeps fun _ => rfl
  intro _
  apply keeps_answer (keeps_request ofBuild_built.unaffected _)
  intro undici
  apply spec_seq (fun _ => Built host config sub source)
  · exact keeps fun _ => rfl
  intro _
  apply spec_seq (fun _ => Built host config sub source)
  · exact keeps fun _ => rfl
  intro _
  apply spec_seq _ (keeps (World.scheduleAutoUpdate_same (fun _ _ => rfl) config))
  intro _
  exact keeps fun _ => rfl

/-- What a boot does with the subscription that loading came to. -/
theorem launched :
    Spec host G (Uses sub source)
      (Prog.read (I := interface) >>= fun v => match v.subscription with
        | none => Prog.modify fun w => { w with state := .noSubscription }
        | some subscription => do
            loadState
            launch host config subscription)
      (fun _ => Built host config sub source) (fun _ => Built host config sub source) := by
  apply spec_seq (fun v w => v.subscription = some sub ∧ Uses sub source w)
  · exact triple_read fun w h => ⟨h.subscription, h⟩
  intro v
  split
  · rename_i hnone
    intro w h
    rw [hnone] at h
    cases h.1
  · rename_i subscription hsome
    intro w h
    obtain rfl : sub = subscription := Option.some.inj (h.1.symm.trans hsome)
    have hlaunch : Spec host G (Uses sub source) (loadState >>= fun _ => launch host config sub)
        (fun _ => Built host config sub source) (fun _ => Built host config sub source) := by
      apply spec_seq _ (keeps_loadState ofBuild_uses)
      intro _
      exact launch_builds
    exact hlaunch w h.2

/-- A boot that finds a subscription keeps it. -/
theorem boot_builds :
    Spec host G (Uses sub source) (boot host config)
      (fun _ => Built host config sub source) (fun _ => Built host config sub source) := by
  apply spec_seq (fun _ => Uses sub source)
  · intro w h
    show wp _ _ (if !false && w.subscription.isSome then pure () else _) _ w
    rw [if_pos (by rw [h.subscription]; rfl)]
    exact h
  intro _
  exact launched

theorem startCore_builds {E : Text → World → Prop} :
    Spec host G (Uses sub source) (startCore host config)
      (fun _ => Built host config sub source) E := by
  apply spec_seq (fun _ => Uses sub source)
  · exact keeps_modify ofBuild_uses fun _ => rfl
  intro _
  apply spec_seq _ (keeps_awaitUndoDispatcher ofBuild_uses)
  intro _
  apply spec_seq _ (keeps_awaitUndoEnv ofBuild_uses)
  intro _
  apply Triple.tryCatch boot_builds
  intro error
  exact keeps_bootFailed ofBuild_built error

/-! ## A running manager has a subscription -/

theorem spec_skip {α β : Type} {p : Program β} {f : β → Program α} {Q : α → World → Prop}
    (hf : ∀ b, Spec host G (fun _ => True) (f b) Q (fun _ _ => True)) :
    Spec host G P (p >>= f) Q (fun _ _ => True) :=
  spec_seq (fun _ _ => True) triple_true hf

/-- What a boot has built if it leaves the manager running. -/
def Booted (host : Host) (config : Config) (T : Option Text → Prop) (w : World) : Prop :=
  w.state = .running → ∃ sub source, T source ∧ Built host config sub source w

variable {T : Option Text → Prop}

theorem launched_booted :
    Spec host G (fun w => T w.fetchedFrom)
      (Prog.read (I := interface) >>= fun v => match v.subscription with
        | none => Prog.modify fun w => { w with state := .noSubscription }
        | some subscription => do
            loadState
            launch host config subscription)
      (fun _ => Booted host config T) (fun _ _ => True) := by
  intro w hw
  cases hsub : w.subscription with
  | none =>
      show wp _ _ (match w.subscription with | none => _ | some _ => _) _ w
      rw [hsub]
      exact nofun
  | some sub =>
      have hlaunched : Spec host G (Uses sub w.fetchedFrom) _
        (fun _ => Built host config sub w.fetchedFrom) _ := launched
      apply wp_mono (hlaunched w ⟨hsub, rfl⟩)
      intro r t ht
      cases r with
      | ok u => exact fun _ => ⟨sub, w.fetchedFrom, hw, ht⟩
      | error e => trivial

theorem bootFailed_failed (error : Text) {E : Text → World → Prop} :
    Spec host G P (bootFailed error) (fun _ w => w.state = .failed) E := by
  intro w _ _ _ _ _ _ _
  rfl

theorem startCore_booted (hP : OfBuild P)
    (hload : Spec host G P (loadSubscription host config false) (fun _ w => T w.fetchedFrom)
      (fun _ _ => True)) {E : Text → World → Prop} :
    Spec host G P (startCore host config) (fun _ => Booted host config T) E := by
  apply spec_seq (fun _ => P)
  · exact keeps_modify hP fun _ => rfl
  intro _
  apply spec_seq _ (keeps_awaitUndoDispatcher hP)
  intro _
  apply spec_seq _ (keeps_awaitUndoEnv hP)
  intro _
  apply Triple.tryCatch (R := fun _ _ => True)
  · apply spec_seq _ hload
    intro _
    exact launched_booted
  · intro error
    apply (bootFailed_failed error).mono (fun _ h => h) _ fun _ _ h => h
    intro _ w hfailed hrunning
    rw [hfailed] at hrunning
    cases hrunning

/-- A running manager has a subscription. -/
def Subscribed (w : World) : Prop := w.state = .running → w.subscription.isSome = true

theorem Booted.subscribed {w : World} (h : Booted host config T w) : Subscribed w := by
  intro hrunning
  obtain ⟨sub, source, _, hbuilt⟩ := h hrunning
  rw [hbuilt.subscription]
  rfl

theorem unaffected_subscribed : Unaffected Subscribed := by
  intro q r w h hrunning
  obtain ⟨hstate, hbuild⟩ := effect_build q r w
  rw [hstate] at hrunning
  have hsub : (effect q r w).subscription = w.subscription := congrArg Prod.fst hbuild
  rw [hsub]
  exact h hrunning

theorem startCore_subscribed {E : Text → World → Prop} :
    Spec host G (fun _ => True) (startCore host config) (fun _ => Subscribed) E := by
  have hbooted : Spec host G (fun _ => True) (startCore host config)
      (fun _ => Booted host config fun _ => True) E :=
    startCore_booted (fun _ _ _ h => h) triple_true
  exact hbooted.mono (fun _ h => h) (fun _ _ h => h.subscribed) fun _ _ h => h

theorem keeps_loadFromUrl_failed (hP : Unaffected P) (url : Text) :
    Spec host G P (loadFromUrl host config url) (fun _ _ => True) (fun _ => P) := by
  apply keeps_answer (keeps_request hP _)
  intro raw
  apply keeps_answer (keeps_request hP _)
  intro _
  apply keeps_answer (keeps_request hP _)
  intro _
  apply spec_seq (fun _ => P) (triple_flags fun _ _ _ h => h)
  intro flags
  apply keeps_answer (keeps_request hP _)
  intro _
  apply spec_seq (fun _ => P) (triple_flags fun _ _ _ h => h)
  intro flags
  apply spec_seq _ (keeps_rethrow _)
  intro parsed
  exact triple_modify fun _ _ => trivial

theorem keeps_loadFromCache_failed (hP : Unaffected P) :
    Spec host G P (loadFromCache host) (fun _ _ => True) (fun _ => P) := by
  apply spec_seq _ (keeps_request hP .readCache)
  intro r
  dsimp only
  split
  · exact triple_modify fun _ _ => trivial
  · apply spec_seq _ (keeps_request hP .readMeta)
    intro r
    apply spec_seq _ (keeps_rethrow _)
    intro parsed
    exact triple_modify fun _ _ => trivial

theorem keeps_loadSubscription_failed (hP : Unaffected P) (force : Bool) :
    Spec host G P (loadSubscription host config force) (fun _ _ => True) (fun _ => P) := by
  apply spec_seq _ keeps_read
  intro w
  split
  · exact triple_pure fun _ _ => trivial
  · split
    · exact keeps_loadFromCache_failed hP
    · exact keeps_loadFromUrl_failed hP _

theorem keeps_start : Spec host G Subscribed (start host) (fun _ => Subscribed)
    (fun _ => Subscribed) := by
  apply spec_seq (fun _ => Subscribed) (triple_flags fun _ _ _ h => h)
  intro flags
  apply spec_seq (fun v w => v = w ∧ Subscribed w) (triple_read fun _ h => ⟨rfl, h⟩)
  intro v
  split
  · apply triple_modify
    intro w h hrunning
    -- a manager that is switched off is no longer running
    dsimp only at hrunning
    split at hrunning
    · exact h.2 (h.1 ▸ hrunning)
    · cases hrunning
  · exact startCore_subscribed.mono (fun _ _ => trivial) (fun _ _ h => h) fun _ _ h => h

theorem stop_subscribed {E : Text → World → Prop} :
    Spec host G P stop (fun _ => Subscribed) E := by
  intro w _ _ _ _ hrunning
  dsimp only at hrunning
  split at hrunning
  · cases hrunning
  · rename_i hkeep
    rw [hrunning] at hkeep
    exact absurd ⟨by decide, by decide⟩ hkeep

theorem keeps_restart : Spec host G Subscribed (restart host) (fun _ => Subscribed)
    (fun _ => Subscribed) := by
  apply spec_seq (fun _ => Subscribed) (triple_flags fun _ _ _ h => h)
  intro flags
  split
  · exact startCore_subscribed.mono (fun _ _ => trivial) (fun _ _ h => h) fun _ _ h => h
  · apply spec_seq (fun _ => Subscribed) (triple_enqueue fun _ _ h => h)
    intro id
    apply spec_seq (fun _ => Subscribed) (triple_settled fun _ _ h => h)
    exact keeps_rethrow

theorem keeps_updateSubscription : Spec host G Subscribed (updateSubscription host)
    (fun _ => Subscribed) (fun _ => Subscribed) := by
  apply spec_seq (fun _ => Subscribed) (triple_flags fun _ _ _ h => h)
  intro flags
  split
  · exact triple_pure fun _ h => h
  · apply spec_seq _ (keeps_loadSubscription_failed unaffected_subscribed true)
    intro _
    exact startCore_subscribed

theorem keeps_body (o : Op) : Spec host G Subscribed (body host o) (fun _ => Subscribed)
    (fun _ => Subscribed) := by
  cases o with
  | start => exact keeps_start
  | stop => exact stop_subscribed
  | restart => exact keeps_restart
  | updateSubscription => exact keeps_updateSubscription

theorem subscribed_runs {found : Inject.Globals} {disk : Disk} {m : Machine interface}
    (h : Runs ((system host).answering G) (initial found disk config) m)
    (hidle : m.running = none) : Subscribed m.shared := by
  have hs : Sound (fun _ => free) Subscribed (fun _ _ _ => True) ((system host).answering G) m := by
    apply sound_runs _ _ h
    · exact ⟨nofun, nofun⟩
    · exact fun o w hw => .of_triple (keeps_body o) (fun _ _ ht => ⟨ht, trivial⟩) hw
    · exact fun _ _ _ _ => ⟨fun _ => trivial, fun _ _ _ _ _ => trivial⟩
  rw [Sound, hidle] at hs
  exact hs.1

/-! ## A manager without a subscription -/

/-- The subscription in use came from the section's URL, and the engine was built from it
and from the section's rules. -/
def Converged (host : Host) (config : Config) (w : World) : Prop :=
  ∃ sub, Built host config sub config.subscriptionUrl w

theorem loadFromUrl_source (url : Text) :
    Spec host G P (loadFromUrl host config url) (fun _ w => w.fetchedFrom = some url)
      (fun _ _ => True) := by
  apply spec_skip
  intro r
  apply spec_skip
  intro raw
  apply spec_skip
  intro r
  apply spec_skip
  intro _
  apply spec_skip
  intro r
  apply spec_skip
  intro _
  apply spec_skip
  intro flags
  apply spec_skip
  intro r
  apply spec_skip
  intro _
  apply spec_skip
  intro flags
  apply spec_skip
  intro parsed
  exact triple_modify fun _ _ => rfl

/-- A boot that has no subscription yet takes it from the section's URL. -/
theorem startCore_converges (hurl : config.subscriptionUrl.getD [] ≠ [])
    {E : Text → World → Prop} :
    Spec host G (fun w => w.subscription = none) (startCore host config)
      (fun _ w => w.state = .running → Converged host config w) E := by
  have hbooted : Spec host G (fun w => w.subscription = none) (startCore host config)
      (fun _ => Booted host config fun source => source = config.subscriptionUrl) E := by
    apply startCore_booted
    · intro w w' hw h
      exact (congrArg Prod.fst hw).trans h
    · obtain ⟨url, hsome⟩ : ∃ url, config.subscriptionUrl = some url := by
        cases hsome : config.subscriptionUrl with
        | none => rw [hsome] at hurl; exact absurd rfl hurl
        | some url => exact ⟨url, rfl⟩
      rw [hsome] at hurl ⊢
      intro w hw
      have hfrom : subscriptionUrl host config w = url := by
        unfold subscriptionUrl
        rw [hsome]
        split
        · rename_i hnil
          exact absurd hnil hurl
        · rfl
      show wp _ _ (if !false && w.subscription.isSome then pure () else
        if (subscriptionUrl host config w).isEmpty then loadFromCache host
        else loadFromUrl host config (subscriptionUrl host config w)) _ w
      rw [hw, hfrom, if_neg (by simp), if_neg (by simpa using hurl)]
      exact loadFromUrl_source (P := fun _ => True) url w trivial
  apply hbooted.mono (fun _ h => h) _ fun _ _ h => h
  intro _ w h hrunning
  obtain ⟨sub, source, rfl, hbuilt⟩ := h hrunning
  exact ⟨sub, hbuilt⟩

end DshClashProxy.Core.Build
