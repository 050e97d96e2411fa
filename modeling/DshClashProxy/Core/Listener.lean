import DshClashProxy.Core.Manager

/-!
# What the manager holds between operations

`Held` ties the listening servers to the one the manager holds and the disposers to the
process the manager found. Every operation keeps it as long as no boot constructs a server
in place of one that is held; `stop` leaves nothing behind.
-/
namespace DshClashProxy.Core.Listener

open Inject Manager
open Lib.Async Lib.Serial

/-- Only the held server listens, and the disposers restore what was found. -/
structure Held (found : Globals) (w : World) : Prop where
  owned : ∀ id ∈ w.listening, w.server = some id
  undoes : Undoes w.undoDispatcher w.globals found
  env : runRestoreEnv w.undoEnv w.globals.env = found.env

/-- Nothing is injected, and `server` is held. -/
structure Bare (found : Globals) (server : Option Nat) (w : World) : Prop where
  server_eq : w.server = server
  owned : ∀ id ∈ w.listening, server = some id
  undoEnv : w.undoEnv = none
  undoDispatcher : w.undoDispatcher = none
  env : w.globals.env = found.env
  fetch : w.globals.fetch = found.fetch
  dispatcher : w.globals.dispatcher = found.dispatcher

/-- Nothing listens and nothing is injected. -/
abbrev Off (found : Globals) : World → Prop := Bare found none

variable {host : Host} {C : Contract interface} {found : Globals} {server : Option Nat}
  {w : World}

theorem Bare.held (h : Bare found server w) : Held found w where
  owned id hid := by rw [h.server_eq]; exact h.owned id hid
  undoes := by rw [Undoes, h.undoDispatcher]; exact ⟨h.fetch, h.dispatcher⟩
  env := by rw [h.undoEnv]; exact h.env

theorem Off.listening (h : Off found w) : w.listening = [] := by
  refine List.eq_nil_iff_forall_not_mem.mpr fun id hid => ?_
  cases h.owned id hid

/-- Both disposers, run and dropped, leave the process as it was found. -/
theorem Held.undone (h : Held found w) :
    Bare found w.server w.runUndoDispatcher.clearUndoDispatcher.runUndoEnv.clearUndoEnv where
  server_eq := rfl
  owned := h.owned
  undoEnv := rfl
  undoDispatcher := rfl
  env := by
    change runRestoreEnv w.undoEnv (runUndo w.undoDispatcher w.globals).env = found.env
    rw [runUndo_env]
    exact h.env
  fetch := h.undoes.1
  dispatcher := h.undoes.2

theorem Held.stopServer (h : Held found w) : Held found w.stopServer where
  owned id hid := by
    obtain ⟨hmem, hne⟩ := List.mem_filter.mp hid
    simp [h.owned id hmem] at hne
  undoes := h.undoes
  env := h.env

theorem Bare.stopServer (h : Bare found server w) : Off found w.stopServer where
  server_eq := rfl
  owned id hid := by
    obtain ⟨hmem, hne⟩ := List.mem_filter.mp hid
    have hid := h.owned id hmem
    simp [h.server_eq, hid] at hne
  undoEnv := h.undoEnv
  undoDispatcher := h.undoDispatcher
  env := h.env
  fetch := h.fetch
  dispatcher := h.dispatcher

/-- The part of the world that `Held` and `Bare` speak about. -/
def holding (w : World) : Option Nat × List Nat × Globals × Option SavedEnv × Option Undo :=
  (w.server, w.listening, w.globals, w.undoEnv, w.undoDispatcher)

/-- A property of that part alone. -/
def OfHolding (F : World → Prop) : Prop := ∀ w t, holding t = holding w → F w → F t

theorem ofHolding_held : OfHolding (Held found) := by
  intro w t h hw
  simp only [holding, Prod.mk.injEq] at h
  obtain ⟨hs, hl, hg, he, hd⟩ := h
  exact ⟨by rw [hs, hl]; exact hw.owned, by rw [hd, hg]; exact hw.undoes,
    by rw [he, hg]; exact hw.env⟩

theorem ofHolding_bare : OfHolding (Bare found server) := by
  intro w t h hw
  simp only [holding, Prod.mk.injEq] at h
  obtain ⟨hs, hl, hg, he, hd⟩ := h
  exact ⟨hs.trans hw.server_eq, by rw [hl]; exact hw.owned, he.trans hw.undoEnv,
    hd.trans hw.undoDispatcher, by rw [hg]; exact hw.env, by rw [hg]; exact hw.fetch,
    by rw [hg]; exact hw.dispatcher⟩

/-! ## Specifications -/

abbrev Spec (host : Host) (C : Contract interface) {α : Type} (P : World → Prop)
    (p : Program α) (Q : α → World → Prop) (E : Js.Text → World → Prop) : Prop :=
  Triple (system host).toAnswers C P p Q E

/-- The program keeps `F`, whether it returns or fails. -/
abbrev Keeps (host : Host) (C : Contract interface) {α : Type} (F : World → Prop)
    (p : Program α) : Prop := Spec host C F p (fun _ => F) (fun _ => F)

theorem spec_seq {α β : Type} (R : β → World → Prop) {p : Program β} {f : β → Program α}
    {P : World → Prop} {Q : α → World → Prop} {E : Js.Text → World → Prop}
    (hp : Spec host C P p R E) (hf : ∀ b, Spec host C (R b) (f b) Q E) :
    Spec host C P (p >>= f) Q E := Triple.bind hp hf

variable {P F : World → Prop} {Q : Unit → World → Prop} {E : Js.Text → World → Prop}

theorem awaitUndoDispatcher_spec
    (h : ∀ w, P w → Q () w.runUndoDispatcher.clearUndoDispatcher) :
    Spec host C P awaitUndoDispatcher Q E := fun w hw _ _ _ => h w hw

theorem awaitUndoEnv_spec (h : ∀ w, P w → Q () w.runUndoEnv.clearUndoEnv) :
    Spec host C P awaitUndoEnv Q E := fun w hw _ _ _ => h w hw

theorem keeps_ofExcept {α : Type} (x : Except Js.Text α) : Keeps host C F (Prog.ofExcept x) :=
  triple_ofExcept (fun _ _ _ h => h) fun _ _ _ h => h

theorem effect_holding {q : Request} (hq : ∀ id, q ≠ .listen id) (r : q.Response) (w : World) :
    holding (effect q r w) = holding w := by
  unfold effect
  split
  · rfl
  · rfl
  · rfl
  · rfl
  · exact absurd rfl (hq _)
  · rfl

theorem keeps_request (hF : OfHolding F) {q : Request} (hq : ∀ id, q ≠ .listen id) :
    Keeps host C F (request q) :=
  triple_request fun r w h _ _ => hF w _ (effect_holding hq r w) h

theorem keeps_modify (hF : OfHolding F) {f : World → World}
    (hf : ∀ w, holding (f w) = holding w) : Keeps host C F (Prog.modify f) :=
  triple_modify fun w h => hF w _ (hf w) h

theorem keeps_loadFromUrl (hF : OfHolding F) (config : Config) (url : Js.Text) :
    Keeps host C F (loadFromUrl host config url) := by
  refine (keeps_request hF (by simp)).bind fun r => (keeps_ofExcept r).bind fun raw => ?_
  refine (keeps_request hF (by simp)).bind fun r => (keeps_ofExcept r).bind fun _ => ?_
  refine (keeps_request hF (by simp)).bind fun r => (keeps_ofExcept r).bind fun _ => ?_
  refine (triple_flags fun _ _ _ h => h).bind fun flags => ?_
  refine (keeps_request hF (by simp)).bind fun r => (keeps_ofExcept r).bind fun _ => ?_
  refine (triple_flags fun _ _ _ h => h).bind fun flags => ?_
  exact (keeps_ofExcept _).bind fun rules => keeps_modify hF fun _ => rfl

theorem keeps_loadFromCache (hF : OfHolding F) : Keeps host C F (loadFromCache host) := by
  refine (keeps_request hF (by simp)).bind fun r => ?_
  dsimp only
  split
  · exact keeps_modify hF fun _ => rfl
  · refine (keeps_request hF (by simp)).bind fun r => ?_
    exact (keeps_ofExcept _).bind fun rules => keeps_modify hF fun _ => rfl

theorem keeps_loadSubscription (hF : OfHolding F) (config : Config) (force : Bool) :
    Keeps host C F (loadSubscription host config force) := by
  refine spec_seq (fun _ => F) (triple_read fun _ h => h) fun w => ?_
  split
  · exact triple_pure fun _ h => h
  · split
    · exact keeps_loadFromCache hF
    · exact keeps_loadFromUrl hF config _

theorem undo_spec
    (h : ∀ w, P w → Q () w.runUndoDispatcher.clearUndoDispatcher.runUndoEnv.clearUndoEnv) :
    Spec host C P (do awaitUndoDispatcher; awaitUndoEnv) Q E := by
  apply spec_seq (fun _ t => Q () t.runUndoEnv.clearUndoEnv)
  · exact awaitUndoDispatcher_spec h
  intro _
  exact awaitUndoEnv_spec fun _ h => h

/-- A failed boot, whatever it has opened, leaves nothing behind. -/
theorem bootFailed_spec (error : Js.Text) :
    Spec host C (Held found) (bootFailed error) (fun _ => Off found) E := by
  apply spec_seq (fun _ => Held found)
  · exact triple_modify fun w h => ofHolding_held w _ rfl h
  intro _
  apply spec_seq (fun _ t => Held found t ∧ t.server = none)
  · exact triple_modify fun w h => ⟨h.stopServer, rfl⟩
  intro _
  refine undo_spec fun w h => ?_
  have hb := h.1.undone
  rwa [h.2] at hb

theorem Bare.listen {id : Nat} (h : Bare found (some id) w) (hl : w.listening = [])
    (ports : Nat → Option Nat) :
    Bare found (some id) { w with listening := id :: w.listening, ports := ports } where
  server_eq := h.server_eq
  owned j hj := by
    rw [hl, List.mem_singleton] at hj
    rw [hj]
  undoEnv := h.undoEnv
  undoDispatcher := h.undoDispatcher
  env := h.env
  fetch := h.fetch
  dispatcher := h.dispatcher

theorem Bare.inject (h : Bare found server w) {port : Nat} {noProxy : NoProxy}
    {injected : Env × SavedEnv}
    (hi : injectEnvironment port noProxy w.globals.env = .ok injected) :
    Held found { w with
      globals := { w.globals with env := injected.1 }, undoEnv := some injected.2 } where
  owned := h.held.owned
  undoes := by
    change Undoes w.undoDispatcher _ found
    rw [h.undoDispatcher]
    exact ⟨h.fetch, h.dispatcher⟩
  env := (restoreEnv_injectEnvironment hi).trans h.env

/-- The disposers were replaced by one that undoes what was just installed. -/
theorem Held.install (h : Held found w) (hd : w.undoDispatcher = none) (undici : Option Undici) :
    Held found (w.install undici) := by
  obtain ⟨henv, hf, hdisp⟩ := undoes_installFetchDispatcher undici w.globals
  have hu : Undoes none w.globals found := by rw [← hd]; exact h.undoes
  refine ⟨h.owned, ⟨hf.trans hu.1, hdisp.trans hu.2⟩, ?_⟩
  change runRestoreEnv w.undoEnv (installFetchDispatcher undici w.globals).1.env = found.env
  rw [henv]
  exact h.env

/-- A launch that constructs the only server holds it, or fails with it still held. -/
theorem launch_spec (server : Option Nat) (config : Config) (subscription : Subscription) :
    Spec host C (fun w => Bare found server w ∧ w.listening = [])
      (launch host config subscription)
      (fun _ t => Held found t ∧ ∃ s, C.issued .importUndici s) (fun _ => Held found) := by
  apply spec_seq (fun v t => v = t ∧ Bare found server t ∧ t.listening = [])
  · exact triple_read fun _ h => ⟨rfl, h⟩
  intro v
  dsimp only
  apply spec_seq (fun _ t => Bare found (some v.servers) t ∧ t.listening = [])
  · refine triple_modify fun w ⟨he, hb, hl⟩ => ⟨⟨by rw [he]; rfl, fun id hid => ?_, hb.undoEnv,
      hb.undoDispatcher, hb.env, hb.fetch, hb.dispatcher⟩, hl⟩
    change id ∈ w.listening at hid
    rw [hl] at hid
    cases hid
  intro _
  apply spec_seq (fun _ => Bare found (some v.servers))
  · refine triple_request fun r w ⟨hb, hl⟩ _ _ => ?_
    cases r with
    | error e => exact hb
    | ok port => exact hb.listen hl _
  intro r
  apply spec_seq (fun _ => Bare found (some v.servers))
  · exact triple_ofExcept (fun _ _ _ h => h) fun _ _ _ h => h.held
  intro port
  apply spec_seq (fun _ => Bare found (some v.servers))
  · exact triple_modify fun w h => ofHolding_bare w _ rfl h
  intro _
  apply spec_seq (fun u t => u = t ∧ Bare found (some v.servers) t)
  · exact triple_read fun _ h => ⟨rfl, h⟩
  intro u
  apply spec_seq (fun injected t => Bare found (some v.servers) t ∧
    injectEnvironment port config.noProxy t.globals.env = .ok injected)
  · exact triple_ofExcept (fun _ _ hx h => ⟨h.2, h.1 ▸ hx⟩) fun _ _ _ h => h.2.held
  intro injected
  apply spec_seq (fun _ t => Held found t ∧ t.undoDispatcher = none)
  · exact triple_modify fun w ⟨hb, hi⟩ => ⟨hb.inject hi, hb.undoDispatcher⟩
  intro _
  apply spec_seq (fun _ t => (Held found t ∧ t.undoDispatcher = none) ∧
    ∃ s, C.issued .importUndici s)
  · exact triple_request fun _ w h hi _ => ⟨h, w, hi⟩
  intro r
  apply spec_seq (fun _ t => (Held found t ∧ t.undoDispatcher = none) ∧
    ∃ s, C.issued .importUndici s)
  · exact triple_ofExcept (fun _ _ _ h => h) fun _ _ _ h => h.1.1
  intro undici
  apply spec_seq (fun _ t => Held found t ∧ ∃ s, C.issued .importUndici s)
  · exact triple_modify fun w ⟨⟨h, hd⟩, hi⟩ => ⟨h.install hd undici, hi⟩
  intro _
  apply spec_seq (fun _ t => Held found t ∧ ∃ s, C.issued .importUndici s)
  · exact triple_modify fun w ⟨h, hi⟩ => ⟨ofHolding_held w _ rfl h, hi⟩
  intro _
  apply spec_seq (fun _ t => Held found t ∧ ∃ s, C.issued .importUndici s)
  · refine triple_modify fun w ⟨h, hi⟩ => ⟨ofHolding_held w _ ?_ h, hi⟩
    exact World.scheduleAutoUpdate_same (fun _ _ => rfl) config w
  intro _
  exact triple_modify fun w ⟨h, hi⟩ => ⟨ofHolding_held w _ rfl h, hi⟩

/-- A boot leaves what is held as it is or launches, and fails with what it holds known. -/
theorem boot_spec
    (hC : ∀ s, s.server = server → C.issued .readState s → server = none) (config : Config) :
    Spec host C (Bare found server) (boot host config)
      (fun _ t => Bare found server t ∨ Held found t ∧ ∃ s, C.issued .importUndici s)
      (fun _ => Held found) := by
  apply spec_seq (fun _ => Bare found server)
  · exact (keeps_loadSubscription ofHolding_bare config false).mono (fun _ h => h)
      (fun _ _ h => h) fun _ _ h => h.held
  intro _
  refine spec_seq (fun _ => Bare found server) (triple_read fun _ h => h) fun v => ?_
  split
  · exact triple_modify fun w h => Or.inl (ofHolding_bare w _ rfl h)
  apply spec_seq (fun _ t => Bare found server t ∧ server = none)
  · apply spec_seq (fun _ t => Bare found server t ∧ server = none)
    · refine triple_request fun r w h hi _ => ⟨?_, hC w h.server_eq hi⟩
      exact ofHolding_bare w _ (effect_holding (q := .readState) (by simp) r w) h
    intro r
    split
    · exact triple_modify fun w ⟨h, hs⟩ => ⟨ofHolding_bare w _ rfl h, hs⟩
    · exact triple_pure fun _ h => h
  intro _
  refine (launch_spec server config _).mono (fun w ⟨h, hs⟩ => ⟨h, ?_⟩)
    (fun _ _ h => Or.inr h) fun _ _ h => h
  subst hs
  exact Off.listening h

/-- The whole boot path. A boot that fails holds nothing. -/
theorem startCore_spec
    (hC : ∀ s, s.server = server → C.issued .readState s → server = none) (config : Config) :
    Spec host C (fun w => Held found w ∧ w.server = server) (startCore host config)
      (fun _ t => Bare found server t ∨ Off found t ∨
        Held found t ∧ ∃ s, C.issued .importUndici s) E := by
  apply spec_seq (fun _ w => Held found w ∧ w.server = server)
  · exact triple_modify fun w h => ⟨ofHolding_held w _ rfl h.1, h.2⟩
  intro _
  apply spec_seq (fun _ t => Bare found server t.runUndoEnv.clearUndoEnv)
  · refine awaitUndoDispatcher_spec fun w h => ?_
    rw [← h.2]
    exact h.1.undone
  intro _
  refine spec_seq (fun _ => Bare found server) (awaitUndoEnv_spec fun _ h => h) fun _ => ?_
  refine Triple.tryCatch (R := fun _ => Held found) ?_ fun error => ?_
  · refine (boot_spec hC config).mono (fun _ h => h) (fun _ t h => ?_) fun _ _ h => h
    exact h.imp_right Or.inr
  · exact (bootFailed_spec error).mono (fun _ h => h) (fun _ _ h => Or.inr (Or.inl h))
      fun _ _ h => h

theorem startCore_held
    (hC : ∀ s, s.server = server → C.issued .readState s → server = none) (config : Config) :
    Spec host C (fun w => Held found w ∧ w.server = server) (startCore host config)
      (fun _ => Held found) (fun _ => Held found) := by
  have hspec : Spec host C (fun w => Held found w ∧ w.server = server) _ _
    fun _ => Held found := startCore_spec hC config
  refine hspec.mono (fun _ h => h) (fun _ t h => ?_) fun _ _ h => h
  rcases h with h | h | h
  · exact h.held
  · exact h.held
  · exact h.1

theorem keeps_startCore (hC : ∀ s, C.issued .readState s → s.server = none)
    (config : Config) : Keeps host C (Held found) (startCore host config) :=
  fun w hw => startCore_held (fun s hs hi => hs.symm.trans (hC s hi)) config w ⟨hw, rfl⟩

/-! ## Operations -/

theorem stop_spec : Spec host C (Held found) stop (fun _ => Off found) E := by
  apply spec_seq (fun _ t => Bare found none
    t.clearUndoDispatcher.runUndoEnv.clearUndoEnv.stopServer)
  · refine triple_modify fun w h => ?_
    exact (ofHolding_held w w.disposeAutoUpdate.disposeLatencyTimer rfl h).undone.stopServer
  intro _
  apply spec_seq (fun _ t => Bare found none
    t.clearUndoDispatcher.runUndoEnv.clearUndoEnv.stopServer)
  · exact triple_request fun _ _ h _ _ => h
  intro _
  refine spec_seq (fun _ => Off found) (triple_modify fun _ h => h) fun _ => ?_
  exact triple_modify fun w h => ofHolding_bare w _ rfl h

/-- A start boots only when no server is held. -/
theorem keeps_start : Keeps host C (Held found) (start host) := by
  refine Triple.bind (triple_flags fun _ _ _ h => h) fun flags => ?_
  refine spec_seq (fun v t => v = t ∧ Held found t) (triple_read fun _ h => ⟨rfl, h⟩)
    fun v => ?_
  split
  · exact triple_modify fun w h => ofHolding_held w _ rfl h.2
  · rename_i hfree
    have hnone : v.server = none := by
      rw [Bool.or_eq_true, not_or, Option.not_isSome_iff_eq_none] at hfree
      exact hfree.1
    exact (startCore_held (fun _ _ _ => rfl) flags.config).mono
      (fun w h => ⟨h.2, h.1 ▸ hnone⟩) (fun _ _ h => h) fun _ _ h => h

theorem keeps_restart (hC : ∀ s, C.issued .readState s → s.server = none) :
    Keeps host C (Held found) (restart host) := by
  refine Triple.bind (triple_flags fun _ _ _ h => h) fun flags => ?_
  split
  · exact keeps_startCore hC flags.config
  · refine Triple.bind (triple_enqueue fun _ _ h => h) fun id => ?_
    exact Triple.bind (triple_settled fun _ _ h => h) fun r => keeps_ofExcept r

theorem keeps_updateSubscription (hC : ∀ s, C.issued .readState s → s.server = none) :
    Keeps host C (Held found) (updateSubscription host) := by
  refine Triple.bind (triple_flags fun _ _ _ h => h) fun flags => ?_
  split
  · exact triple_pure fun _ h => h
  · refine Triple.bind (keeps_loadSubscription ofHolding_held flags.config true) fun _ => ?_
    exact keeps_startCore hC flags.config

/-! ## Runs -/

/-- A boot does not construct a server in place of a held one. -/
def Lone : Op → Contract interface := fun _ =>
  { flags := fun _ => True
    issued := fun q w => q = .readState → w.server = none }

/-- A stop leaves nothing behind. -/
def stopLeaves (found : Globals) (o : Op) (_ : Except Js.Text Unit) (w : World) : Prop :=
  o = .stop → Off found w

theorem body_ends (o : Op) {w : World} (hw : Held found w) :
    Ends Lone (Held found) (stopLeaves found) (system host) o (body host o) w := by
  have keeps {p : Program Unit} (hp : Keeps host (Lone o) (Held found) p) (ho : o ≠ .stop) :
      Ends Lone (Held found) (stopLeaves found) (system host) o p w :=
    .of_triple hp (fun _ _ h => ⟨h, fun hs => absurd hs ho⟩) hw
  cases o with
  | start => exact keeps keeps_start (by simp)
  | stop => exact .of_triple stop_spec (fun _ _ h => ⟨Bare.held h, fun _ => h⟩) hw
  | restart => exact keeps (keeps_restart fun _ hi => hi rfl) (by simp)
  | updateSubscription => exact keeps (keeps_updateSubscription fun _ hi => hi rfl) (by simp)

theorem sound_initial (host : Host) (found : Globals) (disk : Disk) (config : Config) :
    Sound Lone (Held found) (stopLeaves found) (system host) (initial found disk config) := by
  refine ⟨⟨fun id hid => ?_, ⟨rfl, rfl⟩, rfl⟩, fun t ht => ?_⟩
  · cases hid
  · cases ht

/-- No server is held when a boot reads `state.json`, the last await before it constructs
one. -/
def bootsLone (m : Machine interface) : Bool :=
  match m.running with
  | some ⟨_, _, .issued .readState _⟩ => m.shared.server.isNone
  | _ => true

theorem meets_of_bootsLone {m : Machine interface} (h : bootsLone m = true) : Meets Lone m := by
  refine ⟨fun _ => trivial, ?_⟩
  rintro id o q k hr rfl
  rw [bootsLone, hr] at h
  exact Option.isNone_iff_eq_none.mp h

theorem sound_of_bootsLone {disk : Disk} {config : Config} {m : Machine interface}
    (h : RunsIf (system host) (fun m _ _ => bootsLone m = true) (initial found disk config) m) :
    Sound Lone (Held found) (stopLeaves found) (system host) m :=
  sound_runs (fun o _ hw => body_ends o hw) (fun _ _ _ hc => meets_of_bootsLone hc) h
    (sound_initial host found disk config)

/-! ### A boot from the cached subscription -/

/-- Answers with which a boot from the cached subscription succeeds. -/
def cachedReply : (q : Request) → World → q.Response
  | .settle, _ => ()
  | .fetchSubscription _ _, _ => .error "fetch failed".toList
  | .mkdir, _ => .ok ()
  | .writeCache _, _ => .ok ()
  | .writeMeta _ _, _ => .ok ()
  | .readCache, w =>
      match w.disk.subscription with
      | some raw => .ok raw
      | none => .error "ENOENT".toList
  | .readMeta, _ => .error "ENOENT".toList
  | .readState, _ => .error "ENOENT".toList
  | .writeState _, _ => .ok ()
  | .listen _, _ => .ok 7890
  | .importUndici, _ => .ok none

def cachedHost : Host where
  cases := .ascii
  parseSubscription _ := .ok {}
  subscriptionUrlEnv := "CLASH_SUBSCRIPTION_URL".toList

theorem cachedReply_allowed (q : Request) (w : World) :
    (system cachedHost).allowed q w (cachedReply q w) := by
  cases q with
  | readCache =>
      simp only [system, cachedReply]
      split
      · rename_i hraw
        exact hraw
      · trivial
  | _ => trivial

/-- A process without proxy variables, and a cached subscription without nodes. -/
def cachedInitial : Machine interface :=
  initial { env := fun _ => none } { subscription := some "proxies: []".toList } {}

/-- The machine when a call has arrived and everything queued has run. -/
def after (c : Call) (m : Machine interface) : Machine interface :=
  (m.receive (system cachedHost) c).drive (system cachedHost) cachedReply 20

theorem after_runs (ok : Machine interface → Bool) (c : Call) (m : Machine interface)
    (he : (system cachedHost).enabled c m.shared) (hm : ok m = true)
    (hok : ∀ k < 20, ok ((m.receive (system cachedHost) c).drive (system cachedHost)
      cachedReply k) = true) :
    RunsIf (system cachedHost) (fun m l _ => (l.internal ∨ l = .call c) ∧ ok m = true) m
      (after c m) := by
  have h1 : RunsIf (system cachedHost) (fun m l _ => (l.internal ∨ l = .call c) ∧ ok m = true) m
      (m.receive (system cachedHost) c) :=
    .single ⟨_, .call (S := system cachedHost) c he, Or.inr rfl, hm⟩
  refine h1.trans ((drive_runs cachedReply_allowed ok 20 _ hok).mono fun _ _ _ _ h => ?_)
  exact ⟨Or.inl h.1, h.2⟩

/-- Where no boot finds a server held, at most the held server listens between operations,
and none after a stop. -/
theorem one_listener {disk : Disk} {config : Config} {m : Machine interface}
    (h : RunsIf (system host) (fun m _ _ => bootsLone m = true) (initial found disk config) m)
    (hidle : m.running = none) :
    (∀ id ∈ m.shared.listening, m.shared.server = some id) ∧
      ∀ t ∈ m.settled.head?, t.op = .stop → m.shared.listening = [] := by
  have hs := sound_of_bootsLone h
  rw [Sound, hidle] at hs
  exact ⟨hs.1.owned, fun t ht ho => Off.listening (hs.2 t ht ho)⟩

/-- A start, its witness. -/
theorem one_listener_started :
    (∀ id ∈ (after .start cachedInitial).shared.listening,
      (after .start cachedInitial).shared.server = some id) ∧
    ∀ t ∈ (after .start cachedInitial).settled.head?, t.op = .stop →
      (after .start cachedInitial).shared.listening = [] :=
  one_listener ((after_runs bootsLone .start cachedInitial (by simp [system]) rfl
    (by decide)).mono fun _ _ _ _ h => h.2) rfl

/-- A restart over a running proxy leaves the old server listening. -/
theorem restart_leaks_listener :
    ¬ ∀ (host : Host) (found : Globals) (disk : Disk) (config : Config)
      (m : Machine interface), Runs (system host) (initial found disk config) m →
      m.running = none → ∀ id ∈ m.shared.listening, m.shared.server = some id := by
  intro h
  have started := after_runs (fun _ => true) .start cachedInitial (by simp [system]) rfl
    fun _ _ => rfl
  have restarted := after_runs (fun _ => true) .restart (after .start cachedInitial)
    (by simp [system]) rfl fun _ _ => rfl
  have hall := h cachedHost _ _ _ _ ((started.mono fun _ _ _ _ _ => trivial).trans
    (restarted.mono fun _ _ _ _ _ => trivial)) rfl
  exact absurd (hall 0 (by decide)) (by decide)

end DshClashProxy.Core.Listener
