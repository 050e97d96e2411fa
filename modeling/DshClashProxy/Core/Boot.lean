import DshClashProxy.Core.Listener

/-!
# What a boot comes to

A boot ends without a subscription, running, or failed. `startCore_ends` says what is left in
each case. Its parameter `Tainted` stands for what is given up when nothing is known of the
replies: with it the process is known to be restored, without it the fields of the manager
are known to agree with each other.
-/
namespace DshClashProxy.Core.Boot

open Js Js.Text Inject Manager
open Lib.Async Lib.Serial

/-- Restrictions on the replies to the requests of a boot. -/
abbrev Replies := (q : Request) → World → q.Response → Prop

/-- There is no cached copy, or it is blank. -/
def blank (r : Except Text Text) : Bool := (trim (r.toOption.getD [])).isEmpty

/-- The reply leaves the boot that gets it without a subscription. -/
def blanks : (q : Request) → q.Response → Prop
  | .readCache, r => blank r = true
  | _, _ => False

variable (host : Host)

/-- The reply makes the boot that gets it fail. -/
def fails : (q : Request) → q.Response → Prop
  | .fetchSubscription _ _, r => ∃ e, r.bind host.parseSubscription = .error e
  | .mkdir, r => ∃ e, r = .error e
  | .writeCache _, r => ∃ e, r = .error e
  | .writeMeta _ _, r => ∃ e, r = .error e
  | .readCache, r => blank r = false ∧ ∃ e, host.parseSubscription (r.toOption.getD []) = .error e
  | .listen _, r => ∃ e, r = .error e
  | .importUndici, r => ∃ e, r = .error e
  | _, _ => False

/-- Without restrictions on the flags. -/
def free : Contract interface := ⟨fun _ => True, fun _ _ => True⟩

abbrev Spec (G : Replies) {α : Type} (P : World → Prop) (p : Program α)
    (Q : α → World → Prop) (E : Text → World → Prop) : Prop :=
  Triple ((system host).answering G).toAnswers free P p Q E

/-- The process, and what undoes the changes made to it. -/
def process (w : World) : Globals × Option SavedEnv × Option Undo :=
  (w.globals, w.undoEnv, w.undoDispatcher)

/-- The part of the world that loading leaves alone, apart from the state. -/
def kept (w : World) : Option Nat × Nat × List Nat × (Nat → Option Nat) ×
    Globals × Option SavedEnv × Option Undo :=
  (w.server, w.port, w.listening, w.ports, process w)

/-- In this state, with the part that loading leaves alone as in `v`. -/
structure At (state : State) (v w : World) : Prop where
  state : w.state = state
  kept : kept w = kept v

/-- There can be a reply that makes the boot fail. -/
def Failing (G : Replies) (state : State) (v : World) : Prop :=
  ∃ q w r, At state v w ∧ G q w r ∧ fails host q r

/-- There can be a reply that leaves the boot without a subscription. -/
def Blanking (G : Replies) (state : State) (v : World) : Prop :=
  ∃ q w r, At state v w ∧ G q w r ∧ blanks q r

variable {host} {G : Replies} {state : State} {v : World} {P : World → Prop}

theorem At.server {w : World} (h : At state v w) : w.server = v.server :=
  congrArg (fun k => k.1) h.kept

theorem At.port {w : World} (h : At state v w) : w.port = v.port :=
  congrArg (fun k => k.2.1) h.kept

theorem At.process {w : World} (h : At state v w) : process w = process v :=
  congrArg (fun k => k.2.2.2.2) h.kept

theorem spec_seq {α β : Type} (R : β → World → Prop) {p : Program β} {f : β → Program α}
    {Q : α → World → Prop} {E : Text → World → Prop}
    (hp : Spec host G P p R E) (hf : ∀ b, Spec host G (R b) (f b) Q E) :
    Spec host G P (p >>= f) Q E := Triple.bind hp hf

/-! ## Loading the subscription -/

theorem effect_at {q : Request} (hq : ∀ id, q ≠ .listen id) (r : q.Response) {w : World}
    (h : At state v w) : At state v (effect q r w) := by
  unfold effect
  split
  · exact ⟨h.state, h.kept⟩
  · exact ⟨h.state, h.kept⟩
  · exact ⟨h.state, h.kept⟩
  · exact ⟨h.state, h.kept⟩
  · exact absurd rfl (hq _)
  · exact h

/-- What a failed load leaves. -/
abbrev LoadFailed (host : Host) (G : Replies) (state : State) (v : World) (_ : Text)
    (w : World) : Prop := At state v w ∧ Failing host G state v

variable {known : Prop}

/-- A reply that makes the boot fail is evidence that there can be one. -/
theorem request_at {q : Request} (hq : ∀ id, q ≠ .listen id) (E : Text → World → Prop) :
    Spec host G (fun w => At state v w ∧ known) (request q)
      (fun r w => At state v w ∧ known ∧ (fails host q r → Failing host G state v)) E :=
  triple_request fun r w h _ ha =>
    ⟨effect_at hq r h.1, h.2, fun hf => ⟨q, w, r, h.1, ha.2, hf⟩⟩

theorem rethrow_at {α : Type} {r : Except Text α} {F : Prop} (hF : ∀ e, r = .error e → F) :
    Spec host G (fun w => At state v w ∧ known ∧ (F → Failing host G state v))
      (Prog.ofExcept r) (fun _ w => At state v w ∧ known) (LoadFailed host G state v) :=
  triple_ofExcept (fun _ _ _ h => ⟨h.1, h.2.1⟩) fun e _ hr h => ⟨h.1, h.2.2 (hF e hr)⟩

/-- What loading came to: a subscription, or none because of a blank reply. -/
def Loaded (G : Replies) (state : State) (v w : World) : Prop :=
  At state v w ∧ w.subscription.isSome = true ∨
    At .noSubscription v w ∧ w.subscription = none ∧ Blanking G state v

theorem loadFromUrl_spec (config : Config) (url : Text) :
    Spec host G (fun w => At state v w ∧ True) (loadFromUrl host config url)
      (fun _ => Loaded G state v) (LoadFailed host G state v) := by
  refine spec_seq _ (request_at (by simp) _) fun r => ?_
  -- the body fetched here is parsed only after it has been written
  apply spec_seq (fun raw w => At state v w ∧
    ((∃ e, host.parseSubscription raw = .error e) → Failing host G state v))
  · refine triple_ofExcept (fun raw w hr h => ⟨h.1, fun ⟨e, he⟩ => h.2.2 ⟨e, ?_⟩⟩)
      fun e w hr h => ⟨h.1, h.2.2 ⟨e, by rw [hr]; rfl⟩⟩
    rw [hr]
    exact he
  intro raw
  refine spec_seq _ (request_at (by simp) _) fun r => ?_
  refine spec_seq _ (rethrow_at fun e he => ⟨e, he⟩) fun _ => ?_
  refine spec_seq _ (request_at (by simp) _) fun r => ?_
  refine spec_seq _ (rethrow_at fun e he => ⟨e, he⟩) fun _ => ?_
  refine Triple.bind (triple_flags fun _ _ _ h => h) fun flags => ?_
  refine spec_seq _ (request_at (by simp) _) fun r => ?_
  refine spec_seq _ (rethrow_at fun e he => ⟨e, he⟩) fun _ => ?_
  refine Triple.bind (triple_flags fun _ _ _ h => h) fun flags => ?_
  apply spec_seq (fun _ => At state v)
  · exact triple_ofExcept (fun _ _ _ h => h.1) fun e _ he h => ⟨h.1, h.2 ⟨e, he⟩⟩
  intro parsed
  exact triple_modify fun w h => Or.inl ⟨⟨h.state, h.kept⟩, rfl⟩

theorem loadFromCache_spec :
    Spec host G (fun w => At state v w ∧ True) (loadFromCache host)
      (fun _ => Loaded G state v) (LoadFailed host G state v) := by
  apply spec_seq (fun r w => At state v w ∧ (fails host .readCache r → Failing host G state v) ∧
    (blank r = true → Blanking G state v))
  · refine triple_request fun r w h _ ha =>
      ⟨effect_at (q := .readCache) (by simp) r h.1, fun hf => ?_, fun hb => ?_⟩
    · exact ⟨.readCache, w, r, h.1, ha.2, hf⟩
    · exact ⟨.readCache, w, r, h.1, ha.2, hb⟩
  intro r
  dsimp only
  split
  · rename_i hb
    exact triple_modify fun w h => Or.inr ⟨⟨rfl, h.1.kept⟩, rfl, h.2.2 hb⟩
  · rename_i hb
    apply spec_seq (fun _ w => At state v w ∧
      (fails host .readCache r → Failing host G state v))
    · exact triple_request fun r w h _ _ =>
        ⟨effect_at (q := .readMeta) (by simp) r h.1, h.2.1⟩
    intro _
    apply spec_seq (fun _ => At state v)
    · refine triple_ofExcept (fun _ _ _ h => h.1) fun e _ he h => ⟨h.1, h.2 ⟨?_, e, he⟩⟩
      exact Bool.not_eq_true _ ▸ hb
    intro parsed
    exact triple_modify fun w h => Or.inl ⟨⟨h.state, h.kept⟩, rfl⟩

theorem loadSubscription_spec (config : Config) (force : Bool) :
    Spec host G (At state v) (loadSubscription host config force)
      (fun _ => Loaded G state v) (LoadFailed host G state v) := by
  refine spec_seq (fun u w => u = w ∧ At state v w) (triple_read fun _ h => ⟨rfl, h⟩) fun u => ?_
  split
  · rename_i hsome
    refine triple_pure fun w ⟨hu, h⟩ => Or.inl ⟨h, ?_⟩
    rw [← hu]
    exact (Bool.and_eq_true_iff.mp hsome).2
  · split
    · exact loadFromCache_spec.mono (fun _ h => ⟨h.2, trivial⟩) (fun _ _ h => h) fun _ _ h => h
    · exact (loadFromUrl_spec config _).mono (fun _ h => ⟨h.2, trivial⟩) (fun _ _ h => h)
        fun _ _ h => h

/-! ## Restoring and reporting -/

/-- The disposers would leave the process as it was found. -/
structure Restores (found : Globals) (w : World) : Prop where
  undoes : Undoes w.undoDispatcher w.globals found
  env : runRestoreEnv w.undoEnv w.globals.env = found.env

/-- Nothing is injected. -/
structure Plain (found : Globals) (w : World) : Prop where
  undoEnv : w.undoEnv = none
  undoDispatcher : w.undoDispatcher = none
  env : w.globals.env = found.env
  fetch : w.globals.fetch = found.fetch
  dispatcher : w.globals.dispatcher = found.dispatcher

/-- The server held listens on the port reported, and the environment points there. -/
structure Up (w : World) : Prop where
  serves : ∃ id, w.server = some id ∧ id ∈ w.listening ∧ w.ports id = some w.port
  points : w.globals.env "HTTP_PROXY".toList = some (proxyUrl w.port)

/-- No server is held and no port is reported. -/
structure Down (w : World) : Prop where
  server : w.server = none
  port : w.port = 0

variable {found : Globals} {w : World}

theorem Plain.restores (h : Plain found w) : Restores found w where
  undoes := by rw [Undoes, h.undoDispatcher]; exact ⟨h.fetch, h.dispatcher⟩
  env := by rw [h.undoEnv]; exact h.env

theorem Restores.undone (h : Restores found w) :
    Plain found w.runUndoDispatcher.clearUndoDispatcher.runUndoEnv.clearUndoEnv where
  undoEnv := rfl
  undoDispatcher := rfl
  env := by
    change runRestoreEnv w.undoEnv (runUndo w.undoDispatcher w.globals).env = found.env
    rw [runUndo_env]
    exact h.env
  fetch := h.undoes.1
  dispatcher := h.undoes.2

theorem Plain.of_process {v : World} (h : Plain found v) (hp : process w = process v) :
    Plain found w := by
  simp only [process, Prod.mk.injEq] at hp
  obtain ⟨hg, he, hd⟩ := hp
  exact ⟨he.trans h.undoEnv, hd.trans h.undoDispatcher, by rw [hg]; exact h.env,
    by rw [hg]; exact h.fetch, by rw [hg]; exact h.dispatcher⟩

theorem Restores.of_process {v : World} (h : Restores found v) (hp : process w = process v) :
    Restores found w := by
  simp only [process, Prod.mk.injEq] at hp
  obtain ⟨hg, he, hd⟩ := hp
  exact ⟨by rw [hd, hg]; exact h.undoes, by rw [he, hg]; exact h.env⟩

theorem Up.of_kept {v : World} (h : Up v) (hk : kept w = kept v) : Up w := by
  simp only [kept, process, Prod.mk.injEq] at hk
  obtain ⟨hs, hport, hl, hports, hg, -, -⟩ := hk
  exact ⟨by rw [hs, hport, hl, hports]; exact h.serves, by rw [hg, hport]; exact h.points⟩

theorem Plain.inject (h : Plain found w) {port : Nat} {noProxy : NoProxy}
    {injected : Env × SavedEnv}
    (hi : injectEnvironment port noProxy w.globals.env = .ok injected) :
    Restores found { w with
      globals := { w.globals with env := injected.1 }, undoEnv := some injected.2 } where
  undoes := by
    change Undoes w.undoDispatcher _ found
    rw [h.undoDispatcher]
    exact ⟨h.fetch, h.dispatcher⟩
  env := (restoreEnv_injectEnvironment hi).trans h.env

theorem Restores.install (h : Restores found w) (hd : w.undoDispatcher = none)
    (undici : Option Undici) : Restores found (w.install undici) := by
  obtain ⟨henv, hf, hdisp⟩ := undoes_installFetchDispatcher undici w.globals
  have hu : Undoes none w.globals found := by rw [← hd]; exact h.undoes
  refine ⟨⟨hf.trans hu.1, hdisp.trans hu.2⟩, ?_⟩
  change runRestoreEnv w.undoEnv (installFetchDispatcher undici w.globals).1.env = found.env
  rw [henv]
  exact h.env

theorem Up.install (h : Up w) (undici : Option Undici) : Up (w.install undici) := by
  obtain ⟨henv, -⟩ := undoes_installFetchDispatcher undici w.globals
  refine ⟨h.serves, ?_⟩
  change (installFetchDispatcher undici w.globals).1.env _ = _
  rw [henv]
  exact h.points

theorem Restores.scheduleAutoUpdate (h : Restores found w) (config : Config) :
    Restores found (w.scheduleAutoUpdate config) :=
  h.of_process (World.scheduleAutoUpdate_same (fun _ _ => rfl) config w)

theorem Up.scheduleAutoUpdate (h : Up w) (config : Config) : Up (w.scheduleAutoUpdate config) :=
  h.of_kept (World.scheduleAutoUpdate_same (fun _ _ => rfl) config w)

/-! ## The whole boot path -/

/-- While a boot is under way, no reply makes it fail with a port still reported, and none
leaves it without a subscription with a server still held. -/
def Good (host : Host) : Replies := fun q w r =>
  w.state = .starting → (w.port ≠ 0 → ¬ fails host q r) ∧ (w.server ≠ none → ¬ blanks q r)

variable {Tainted : Prop}

/-- What a boot leaves in each of its three ends. -/
def Ended (Tainted : Prop) (found : Globals) (w : World) : Prop :=
  w.state = .running ∧ Restores found w ∧ (Tainted ∨ Up w) ∨
    (w.state = .failed ∨ w.state = .noSubscription) ∧ Plain found w ∧ (Tainted ∨ Down w)

/-- What a boot that fails leaves to be cleaned up. -/
abbrev Unfinished (Tainted : Prop) (found : Globals) (_ : Text) (w : World) : Prop :=
  Restores found w ∧ (Tainted ∨ w.port = 0)

/-- A server was constructed, and nothing is injected yet. -/
structure Constructed (found : Globals) (id : Nat) (w : World) : Prop where
  state : w.state = .starting
  plain : Plain found w
  server : w.server = some id

theorem bootFailed_ends (error : Text) {E : Text → World → Prop} :
    Spec host G (Unfinished Tainted found error) (bootFailed error)
      (fun _ => Ended Tainted found) E := by
  intro w ⟨hrestores, hport⟩ _ _ _ _ _ _
  refine Or.inr ⟨Or.inl rfl, ?_, hport.imp_right fun hp => ⟨rfl, hp⟩⟩
  have hstopped : Restores found { w with state := .failed, error := some error }.stopServer :=
    hrestores.of_process rfl
  exact hstopped.undone

/-- The server listens on this port. -/
structure Listening (found : Globals) (id port : Nat) (w : World) : Prop
    extends Constructed found id w where
  listens : id ∈ w.listening
  port : w.ports id = some port

theorem Constructed.listen {id : Nat} (h : Constructed found id w) (port : Nat) :
    Listening found id port (effect (.listen id) (.ok port) w) where
  state := h.state
  plain := h.plain.of_process rfl
  server := h.server
  listens := List.mem_cons_self
  port := if_pos rfl

/-- The environment points at the server, which listens on the port reported. -/
structure Injected (found : Globals) (w : World) : Prop where
  state : w.state = .starting
  restores : Restores found w
  undoDispatcher : w.undoDispatcher = none
  up : Up w

/-- A server begins to listen only where the value of `NO_PROXY` is not ill-typed. -/
def Injects (G : Replies) (Tainted : Prop) (config : Config) : Prop :=
  ∀ server w port, G (.listen server) w (.ok port) → Tainted ∨ config.noProxy ≠ .null

theorem port_eq_zero (hG : ∀ q w r, G q w r → Tainted ∨ Good host q w r) {q : Request}
    {r : q.Response} (hg : G q w r) (hs : w.state = .starting) (hf : fails host q r) :
    Tainted ∨ w.port = 0 := by
  refine (hG q w r hg).imp_right fun hgood => ?_
  by_contra hport
  exact (hgood hs).1 hport hf

theorem launch_ends (hG : ∀ q w r, G q w r → Tainted ∨ Good host q w r) {config : Config}
    (hN : Injects G Tainted config) (subscription : Subscription) :
    Spec host G (fun w => w.state = .starting ∧ Plain found w) (launch host config subscription)
      (fun _ => Ended Tainted found) (Unfinished Tainted found) := by
  apply spec_seq (fun v w => w.state = .starting ∧ Plain found w ∧ v = w)
  · exact triple_read fun _ h => ⟨h.1, h.2, rfl⟩
  intro v
  apply spec_seq (fun _ => Constructed found v.servers)
  · refine triple_modify fun w ⟨hs, hp, hv⟩ => ⟨hs, hp.of_process rfl, ?_⟩
    rw [hv]
    rfl
  intro _
  apply spec_seq (fun r w => (∀ e, r = .error e → Unfinished Tainted found e w) ∧
    ∀ port, r = .ok port → Listening found v.servers port w ∧
      (Tainted ∨ config.noProxy ≠ .null))
  · refine triple_request fun r w h _ ha => ?_
    cases r with
    | error e =>
        refine ⟨fun _ _ => ⟨h.plain.restores, ?_⟩, nofun⟩
        exact port_eq_zero hG ha.2 h.state ⟨e, rfl⟩
    | ok port =>
        refine ⟨nofun, fun port' he => ?_⟩
        obtain rfl := Except.ok.inj he
        exact ⟨h.listen port, hN _ _ _ ha.2⟩
  intro r
  apply spec_seq (fun port w => Listening found v.servers port w ∧
    (Tainted ∨ config.noProxy ≠ .null))
  · exact triple_ofExcept (fun _ _ hr h => h.2 _ hr) fun _ _ hr h => h.1 _ hr
  intro port
  apply spec_seq (fun _ w => (Listening found v.servers port w ∧ w.port = port) ∧
    (Tainted ∨ config.noProxy ≠ .null))
  · exact triple_modify fun w ⟨h, hnull⟩ =>
      ⟨⟨⟨⟨h.state, h.plain.of_process rfl, h.server⟩, h.listens, h.port⟩, rfl⟩, hnull⟩
  intro _
  apply spec_seq (fun u w => u = w ∧ (Listening found v.servers port w ∧ w.port = port) ∧
    (Tainted ∨ config.noProxy ≠ .null))
  · exact triple_read fun _ h => ⟨rfl, h⟩
  intro u
  apply spec_seq (fun injected w => (Listening found v.servers port w ∧ w.port = port) ∧
    injectEnvironment port config.noProxy w.globals.env = .ok injected)
  · refine triple_ofExcept (fun _ _ hx h => ⟨h.2.1, h.1 ▸ hx⟩) fun e w hx h => ?_
    refine ⟨h.2.1.1.plain.restores, h.2.2.imp_right fun hnull => ?_⟩
    exact absurd (injectEnvironment_error hx) hnull
  intro injected
  apply spec_seq (fun _ => Injected found)
  · refine triple_modify fun w ⟨⟨h, hport⟩, hi⟩ => ⟨h.state, h.plain.inject hi,
      h.plain.undoDispatcher, ⟨v.servers, h.server, h.listens, by rw [hport]; exact h.port⟩, ?_⟩
    rw [hport]
    exact injectEnvironment_points hi
  intro _
  apply spec_seq (fun r w => Injected found w ∧ ∀ e, r = .error e → Tainted ∨ w.port = 0)
  · exact triple_request fun r w h _ ha =>
      ⟨h, fun e he => port_eq_zero hG ha.2 h.state ⟨e, he⟩⟩
  intro r
  apply spec_seq (fun _ => Injected found)
  · exact triple_ofExcept (fun _ _ _ h => h.1) fun e _ he h => ⟨h.1.restores, h.2 e he⟩
  intro undici
  apply spec_seq (fun _ w => Restores found w ∧ Up w)
  · exact triple_modify fun w h =>
      ⟨h.restores.install h.undoDispatcher undici, h.up.install undici⟩
  intro _
  apply spec_seq (fun _ w => w.state = .running ∧ Restores found w ∧ Up w)
  · exact triple_modify fun w ⟨hr, hu⟩ => ⟨rfl, hr.of_process rfl, hu.of_kept rfl⟩
  intro _
  apply spec_seq (fun _ w => w.state = .running ∧ Restores found w ∧ Up w)
  · exact triple_modify fun w ⟨hs, hr, hu⟩ =>
      ⟨(World.scheduleAutoUpdate_same (fun _ _ => rfl) config w).trans hs,
        hr.scheduleAutoUpdate config, hu.scheduleAutoUpdate config⟩
  intro _
  exact triple_modify fun w ⟨hs, hr, hu⟩ =>
    Or.inl ⟨hs, hr.of_process rfl, Or.inr (hu.of_kept rfl)⟩

theorem loadState_spec :
    Spec host G (fun w => w.state = .starting ∧ Plain found w) loadState
      (fun _ w => w.state = .starting ∧ Plain found w) (Unfinished Tainted found) := by
  apply spec_seq (fun _ w => w.state = .starting ∧ Plain found w)
  · refine triple_request fun r w h _ _ => ?_
    have hw : At .starting w (effect .readState r w) :=
      effect_at (q := .readState) (by simp) r ⟨h.1, rfl⟩
    exact ⟨hw.state, h.2.of_process hw.process⟩
  intro r
  split
  · exact triple_modify fun w h => ⟨h.1, h.2.of_process rfl⟩
  · exact triple_pure fun _ h => h

/-- A boot, from a state in which nothing is injected. -/
theorem boot_ends (hG : ∀ q w r, G q w r → Tainted ∨ Good host q w r) {config : Config}
    (hN : Injects G Tainted config) (hplain : Plain found v)
    (hv : Tainted ∨ v.server ≠ none ∨ Down v) :
    Spec host G (At .starting v) (boot host config) (fun _ => Ended Tainted found)
      (Unfinished Tainted found) := by
  apply spec_seq (fun _ => Loaded G .starting v)
  · refine (loadSubscription_spec config false).mono (fun _ h => h) (fun _ _ h => h) ?_
    rintro e w ⟨hw, q, s, r, hs, hg, hf⟩
    have hport := port_eq_zero hG hg hs.state hf
    rw [hs.port, ← hw.port] at hport
    exact ⟨(hplain.of_process hw.process).restores, hport⟩
  intro _
  apply spec_seq (fun u w => u = w ∧ Loaded G .starting v w)
  · exact triple_read fun _ h => ⟨rfl, h⟩
  intro u
  split
  · rename_i hnone
    refine triple_modify fun w ⟨hu, h⟩ => ?_
    rcases h with ⟨_, hsome⟩ | ⟨hw, _, q, s, r, hs, hg, hb⟩
    · rw [← hu, hnone] at hsome
      cases hsome
    refine Or.inr ⟨Or.inr rfl, hplain.of_process hw.process, ?_⟩
    -- a reply that leaves the boot without a subscription comes with no server held
    rcases hG q s r hg with ht | hgood
    · exact Or.inl ht
    have hserver : v.server = none := by
      by_contra hheld
      exact (hgood hs.state).2 (by rw [hs.server]; exact hheld) hb
    refine hv.imp_right fun hdown => ?_
    have hdown := hdown.resolve_left fun hheld => hheld hserver
    exact ⟨hw.server.trans hdown.server, hw.port.trans hdown.port⟩
  · rename_i subscription hsome
    apply spec_seq (fun _ w => w.state = .starting ∧ Plain found w)
    · refine loadState_spec.mono (fun w ⟨hu, h⟩ => ?_) (fun _ _ h => h) fun _ _ h => h
      rcases h with ⟨hw, _⟩ | ⟨_, hnone, _⟩
      · exact ⟨hw.state, hplain.of_process hw.process⟩
      · rw [← hu, hsome] at hnone
        cases hnone
    intro _
    exact launch_ends hG hN subscription

/-- The whole boot path ends without a subscription, running or failed. -/
theorem startCore_ends (hG : ∀ q w r, G q w r → Tainted ∨ Good host q w r) {config : Config}
    (hN : Injects G Tainted config) {E : Text → World → Prop} :
    Spec host G (fun w => Restores found w ∧ (Tainted ∨ w.server ≠ none ∨ Down w))
      (startCore host config) (fun _ => Ended Tainted found) E := by
  apply spec_seq (fun _ w => Restores found w ∧ w.state = .starting ∧
    (Tainted ∨ w.server ≠ none ∨ Down w))
  · exact triple_modify fun w h => ⟨h.1.of_process rfl, rfl, h.2.imp_right fun h =>
      h.imp_right fun h => ⟨h.server, h.port⟩⟩
  intro _
  apply spec_seq (fun _ w => Plain found w.runUndoEnv.clearUndoEnv ∧ w.state = .starting ∧
    (Tainted ∨ w.server ≠ none ∨ Down w))
  · intro w h _ _ _
    exact ⟨h.1.undone, h.2.1, h.2.2.imp_right fun h => h.imp_right fun h => ⟨h.server, h.port⟩⟩
  intro _
  apply spec_seq (fun _ w => Plain found w ∧ w.state = .starting ∧
    (Tainted ∨ w.server ≠ none ∨ Down w))
  · intro w h _ _ _
    exact ⟨h.1, h.2.1, h.2.2.imp_right fun h => h.imp_right fun h => ⟨h.server, h.port⟩⟩
  intro _ v ⟨hplain, hstate, hv⟩
  refine (Triple.tryCatch (boot_ends hG hN hplain hv) fun error => ?_) v ⟨hstate, rfl⟩
  exact bootFailed_ends error

end DshClashProxy.Core.Boot
