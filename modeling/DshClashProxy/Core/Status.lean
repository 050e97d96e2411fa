import DshClashProxy.Core.Boot

/-!
# Between operations

After a stop, and wherever a boot has failed or found no subscription, the process is as the
manager found it. The status tells whether a server listens, and where, as long as no start
finds a server held by a manager that is switched off and no boot that replaces a server
fails or loses its subscription.
-/
namespace DshClashProxy.Core.Status

open Js Inject Manager Boot
open Lib.Async Lib.Serial
open Listener (after after_runs cachedInitial cachedHost cachedReply cachedReply_allowed)

/-- What holds while no operation is running. -/
structure Idle (Tainted : Prop) (found : Globals) (w : World) : Prop where
  restores : Restores found w
  plain : w.state = .failed ∨ w.state = .noSubscription → Plain found w
  truthful : Tainted ∨ w.state = .running ∧ Up w ∨
    w.state ≠ .running ∧ Down w ∧ Plain found w

variable {host : Host} {G : Replies} {found : Globals} {Tainted : Prop} {w v : World}

theorem Idle.bootable (h : Idle Tainted found w) :
    Restores found w ∧ (Tainted ∨ w.server ≠ none ∨ Down w) := by
  refine ⟨h.restores, h.truthful.imp_right fun ht => ?_⟩
  rcases ht with ⟨_, hup⟩ | ⟨_, hdown, _⟩
  · obtain ⟨id, hid, _⟩ := hup.serves
    exact Or.inl (by simp [hid])
  · exact Or.inr hdown

theorem idle_of_ended (h : Ended Tainted found w) : Idle Tainted found w := by
  rcases h with ⟨hs, hr, hup⟩ | ⟨hs, hp, hdown⟩
  · refine ⟨hr, fun hf => ?_, hup.imp_right fun h => Or.inl ⟨hs, h⟩⟩
    rw [hs] at hf
    rcases hf with hf | hf <;> cases hf
  · refine ⟨hp.restores, fun _ => hp, hdown.imp_right fun h => Or.inr ⟨fun hrun => ?_, h, hp⟩⟩
    rw [hrun] at hs
    rcases hs with hs | hs <;> cases hs

/-- Loading that fails changes nothing of this. -/
theorem Idle.of_at (h : Idle Tainted found v) (hw : At v.state v w) : Idle Tainted found w := by
  refine ⟨h.restores.of_process hw.process, fun hs => ?_, h.truthful.imp_right fun ht => ?_⟩
  · rw [hw.state] at hs
    exact (h.plain hs).of_process hw.process
  · rw [hw.state]
    refine ht.imp (fun h => ⟨h.1, h.2.of_kept hw.kept⟩) fun h => ⟨h.1, ?_, ?_⟩
    · exact ⟨hw.server.trans h.2.1.server, hw.port.trans h.2.1.port⟩
    · exact h.2.2.of_process hw.process

/-! ## Operations -/

/-- The operation, begun with these flags in this world, does not declare a proxy that is up
disabled, and is one of `Nulled` if it boots with an ill-typed `NO_PROXY` value. -/
def WellBegun (Nulled : Prop) (flags : Flags) (w : World) : Op → Prop
  | .start => if w.server.isSome then flags.on = true
      else flags.on = true → flags.config.noProxy = .null → Nulled
  | .stop => True
  | .restart => flags.on = true → flags.config.noProxy = .null → Nulled
  | .updateSubscription =>
      flags.config.enabled ≠ some false → flags.config.noProxy = .null → Nulled

/-- The replies among these with which no server begins to listen for a boot whose `NO_PROXY`
value is ill-typed. -/
def Unheard (G : Replies) (Nulled : Prop) : Replies := fun q w r =>
  G q w r ∧ (Nulled → (effect q r w).listening = w.listening)

theorem injects_unheard {Nulled : Prop} {config : Config}
    (h : Tainted ∨ (config.noProxy = .null → Nulled)) :
    Injects (Unheard G Nulled) Tainted config := by
  intro server w port hg
  refine h.imp_right fun h hnull => ?_
  exact List.cons_ne_self server w.listening (hg.2 (h hnull))

/-- A stop leaves nothing injected. -/
def stopRestores (found : Globals) (o : Op) (_ : Except Text Unit) (w : World) : Prop :=
  o = .stop → Plain found w

abbrev Establishes (host : Host) (G : Replies) (Tainted : Prop) (found : Globals) (o : Op)
    (p : Program Unit) (w : World) : Prop :=
  Ends (fun _ => free) (Idle Tainted found) (stopRestores found) ((system host).answering G) o p w

theorem stop_spec {E : Text → World → Prop} :
    Spec host G (Restores found) stop
      (fun _ w => Plain found w ∧ Down w ∧ w.state ≠ .running) E := by
  apply spec_seq (fun _ t => Plain found t.clearUndoDispatcher.runUndoEnv.clearUndoEnv)
  · refine triple_modify fun w h => ?_
    have hdisposed : Restores found w.disposeAutoUpdate.disposeLatencyTimer := h.of_process rfl
    exact hdisposed.undone
  intro _
  apply spec_seq (fun _ t => Plain found t.clearUndoDispatcher.runUndoEnv.clearUndoEnv)
  · exact triple_request fun _ _ h _ _ => h
  intro _
  apply spec_seq (fun _ w => Plain found w ∧ w.server = none)
  · exact triple_modify fun w h => ⟨h.of_process rfl, rfl⟩
  intro _
  refine triple_modify fun w h => ⟨h.1.of_process rfl, ⟨h.2, rfl⟩, ?_⟩
  -- only a state other than `running` is left as it is
  dsimp only
  split
  · simp
  · rename_i hkeep
    intro hrun
    rw [hrun] at hkeep
    exact hkeep ⟨by decide, by decide⟩

theorem stop_establishes (h : Idle Tainted found w) :
    Establishes host G Tainted found .stop stop w := by
  have hspec : Spec host G (Restores found) stop _
    (fun _ w => Plain found w ∧ Down w ∧ w.state ≠ .running) := stop_spec
  refine .of_triple hspec (fun _ w hw => ⟨⟨hw.1.restores, fun _ => hw.1, ?_⟩, fun _ => hw.1⟩)
    h.restores
  exact Or.inr (Or.inr ⟨hw.2.2, hw.2.1, hw.1⟩)

theorem startCore_establishes (hG : ∀ q w r, G q w r → Tainted ∨ Good host q w r)
    {config : Config} (hN : Injects G Tainted config) {o : Op} (ho : o ≠ .stop)
    (h : Restores found w ∧ (Tainted ∨ w.server ≠ none ∨ Down w)) :
    Establishes host G Tainted found o (startCore host config) w := by
  have hspec : Spec host G _ (startCore host config) (fun _ => Ended Tainted found)
    (fun _ => Ended Tainted found) := startCore_ends hG hN
  exact .of_triple hspec (fun _ _ he => ⟨idle_of_ended he, fun hs => absurd hs ho⟩) h

theorem Idle.disabled (h : Idle Tainted found w) (hw : Tainted ∨ w.server = none) :
    Idle Tainted found { w with state := .disabled } := by
  refine ⟨h.restores.of_process rfl, fun hs => ?_, ?_⟩
  · rcases hs with hs | hs <;> cases hs
  · rcases hw with ht | hnone
    · exact Or.inl ht
    · refine h.truthful.imp_right fun ht => ?_
      rcases ht with ⟨_, hup⟩ | ⟨_, hdown, hplain⟩
      · obtain ⟨id, hid, _⟩ := hup.serves
        rw [hnone] at hid
        cases hid
      · exact Or.inr ⟨by simp, ⟨hdown.server, hdown.port⟩, hplain.of_process rfl⟩

theorem Idle.loaded (h : Idle Tainted found v) (hw : Loaded G v.state v w) :
    Restores found w ∧ (Tainted ∨ w.server ≠ none ∨ Down w) := by
  have hkept : kept w = kept v := by
    rcases hw with ⟨hw, _⟩ | ⟨hw, _⟩
    · exact hw.kept
    · exact hw.kept
  have hw' : At w.state v w := ⟨rfl, hkept⟩
  obtain ⟨hr, hv⟩ := h.bootable
  refine ⟨hr.of_process hw'.process, hv.imp_right fun hv => ?_⟩
  rw [hw'.server]
  exact hv.imp_right fun hd => ⟨hw'.server.trans hd.server, hw'.port.trans hd.port⟩

/-- An update that cannot load the new body leaves things as they are. -/
theorem updateSubscription_establishes (hG : ∀ q w r, G q w r → Tainted ∨ Good host q w r)
    {config : Config} (hN : Injects G Tainted config) (h : Idle Tainted found w) :
    Establishes host G Tainted found .updateSubscription
      (loadSubscription host config true >>= fun _ => startCore host config) w := by
  have hspec : Spec host G (At w.state w)
      (loadSubscription host config true >>= fun _ => startCore host config)
      (fun _ => Idle Tainted found) (fun _ => Idle Tainted found) := by
    apply spec_seq (fun _ => Loaded G w.state w)
    · exact (loadSubscription_spec config true).mono (fun _ h => h) (fun _ _ h => h)
        fun _ _ hf => h.of_at hf.1
    intro _
    exact (startCore_ends hG hN).mono (fun _ hl => h.loaded hl) (fun _ _ he => idle_of_ended he)
      fun _ _ hi => hi
  exact .of_triple hspec (fun _ _ hi => ⟨hi, nofun⟩) ⟨rfl, rfl⟩

/-- An operation that begins well keeps what holds between operations. -/
theorem begin_sound (hG : ∀ q w r, G q w r → Tainted ∨ Good host q w r) {Nulled : Prop}
    {m : Machine interface} (id : Nat) (o : Op) (h : Idle Tainted found m.shared)
    (hwell : Tainted ∨ WellBegun Nulled m.flags m.shared o) :
    Sound (fun _ => free) (Idle Tainted found) (stopRestores found)
      ((system host).answering (Unheard G Nulled))
      (Machine.advance (I := interface) id o (body host o) m) := by
  have hG' : ∀ q w r, Unheard G Nulled q w r → Tainted ∨ Good host q w r :=
    fun q w r hg => hG q w r hg.1
  cases o with
  | stop => exact sound_advance trivial (stop_establishes h)
  | start =>
      change Sound _ _ _ _ (Machine.advance (I := interface) id Op.start
        (if m.shared.server.isSome || !m.flags.on then _ else startCore host m.flags.config) m)
      split
      · rename_i hstay
        refine sound_advance trivial ⟨?_, nofun⟩
        by_cases hon : m.flags.on = true
        · exact h.of_at ⟨if_pos hon, rfl⟩
        · have hserver : Tainted ∨ m.shared.server = none := by
            refine hwell.imp_right fun hwell => ?_
            by_contra hheld
            rw [WellBegun, if_pos (Option.isSome_iff_ne_none.mpr hheld)] at hwell
            exact hon hwell
          exact (h.disabled hserver).of_at ⟨if_neg hon, rfl⟩
      · rename_i hboot
        rw [Bool.or_eq_true, not_or] at hboot
        refine sound_advance trivial
          (startCore_establishes hG' (injects_unheard ?_) (by simp) h.bootable)
        refine hwell.imp_right fun hwell => ?_
        rw [WellBegun, if_neg hboot.1] at hwell
        exact hwell (by simpa using hboot.2)
  | restart =>
      change Sound _ _ _ _ (Machine.advance (I := interface) id Op.restart
        (if m.flags.on then startCore host m.flags.config else _) m)
      split
      · rename_i hon
        refine sound_advance trivial
          (startCore_establishes hG' (injects_unheard ?_) (by simp) h.bootable)
        exact hwell.imp_right fun hwell => hwell hon
      · refine sound_advance trivial fun _ r => ?_
        cases r with
        | ok u => exact ⟨h, nofun⟩
        | error e => exact ⟨h, nofun⟩
  | updateSubscription =>
      change Sound _ _ _ _ (Machine.advance (I := interface) id Op.updateSubscription
        (if m.flags.config.enabled = some false then pure () else
          (loadSubscription host m.flags.config true >>= fun _ => startCore host m.flags.config)) m)
      split
      · exact sound_advance trivial ⟨h, nofun⟩
      · rename_i henabled
        refine sound_advance trivial (updateSubscription_establishes hG' (injects_unheard ?_) h)
        exact hwell.imp_right fun hwell => hwell henabled

/-! ## Runs -/

/-- The step begins no operation that does not begin well, and no server begins to listen for an
operation of `Nulled`, those that boot with an ill-typed `NO_PROXY` value. -/
def BeginsWell (Tainted : Prop) (Nulled : Nat → Prop) (m : Machine interface) (l : Label Call)
    (m' : Machine interface) : Prop :=
  (l = .begin → ∀ e ∈ m.pending.head?, Tainted ∨ WellBegun (Nulled e.1) m.flags m.shared e.2) ∧
    (l = .answer → ∀ t ∈ m.running, Nulled t.id → m'.shared.listening = m.shared.listening)

/-- What `Sound` says with the replies that the running operation may get. -/
abbrev Settling (host : Host) (G : Replies) (Tainted : Prop) (Nulled : Nat → Prop)
    (found : Globals) (m : Machine interface) : Prop :=
  Sound (fun _ => free) (Idle Tainted found) (stopRestores found)
    ((system host).answering (Unheard G (∃ t ∈ m.running, Nulled t.id))) m

theorem nulled_running {Nulled : Nat → Prop} {m : Machine interface} {t : Task interface}
    (ht : m.running = some t) : (∃ t ∈ m.running, Nulled t.id) ↔ Nulled t.id := by
  simp [ht]

theorem settling_step (hG : ∀ q w r, G q w r → Tainted ∨ Good host q w r) {Nulled : Nat → Prop}
    {m m' : Machine interface} {l : Label Call} (hs : Settling host G Tainted Nulled found m)
    (h : Step ((system host).answering G) m l m') (hc : BeginsWell Tainted Nulled m l m') :
    Settling host G Tainted Nulled found m' := by
  by_cases hbegin : l = .begin
  · subst hbegin
    obtain ⟨hr, id, o, rest, hp, rfl⟩ := step_begin h
    rw [Settling, Sound, hr] at hs
    have hwell := hc.1 rfl (id, o) (by rw [hp]; rfl)
    refine (begin_sound hG (m := { m with pending := rest }) id o hs.1 hwell).answering
      fun hrun => ?_
    obtain ⟨t, ht⟩ := Option.ne_none_iff_exists'.mp hrun
    have hid : t.id = id := advance_running _ _ _ _ t ht
    rw [nulled_running ht, hid]
  · have hunheard : Step ((system host).answering (Unheard G (∃ t ∈ m.running, Nulled t.id)))
        m l m' := by
      refine h.answering fun hl q r he hg => ⟨hg, fun hnulled => ?_⟩
      obtain ⟨t, ht, hn⟩ := hnulled
      rw [← hc.2 hl t ht hn, he]
      rfl
    have hkept := sound_step_begin (fun _ _ _ hb => absurd hb hbegin)
      ⟨fun _ => trivial, fun _ _ _ _ _ => trivial⟩ hunheard hs
    refine hkept.answering fun hrun => ?_
    obtain ⟨t', ht'⟩ := Option.ne_none_iff_exists'.mp hrun
    obtain ⟨t, ht, hid⟩ := step_running h hbegin t' ht'
    rw [nulled_running ht', nulled_running ht, hid]

theorem idle_runs (hG : ∀ q w r, G q w r → Tainted ∨ Good host q w r) {Nulled : Nat → Prop}
    {disk : Disk} {config : Config} {m : Machine interface}
    (h : RunsIf ((system host).answering G) (BeginsWell Tainted Nulled)
      (initial found disk config) m) : Settling host G Tainted Nulled found m := by
  induction h with
  | refl =>
      have hplain : Plain found (initial found disk config).shared := ⟨rfl, rfl, rfl, rfl, rfl⟩
      refine ⟨⟨hplain.restores, fun _ => hplain, Or.inr (Or.inr ⟨?_, ⟨rfl, rfl⟩, hplain⟩)⟩, nofun⟩
      simp [initial]
  | tail _ hl ih =>
      obtain ⟨l, hstep, hcond⟩ := hl
      exact settling_step hG ih hstep hcond

/-- After a stop, and where a boot has failed or has found no subscription, the environment
and `fetch` are as they were. -/
theorem restored {disk : Disk} {config : Config} {m : Machine interface}
    (h : Runs (system host) (initial found disk config) m) (hidle : m.running = none)
    (hend : (∃ t ∈ m.settled.head?, t.op = .stop) ∨ m.shared.state = .failed ∨
      m.shared.state = .noSubscription) :
    m.shared.globals.env = found.env ∧ m.shared.globals.fetch = found.fetch := by
  have hrun : RunsIf ((system host).answering fun _ _ _ => True)
      (BeginsWell True fun _ => False) (initial found disk config) m :=
    (RunsIf.answering (fun _ _ _ _ => trivial) h).mono fun _ _ _ _ _ =>
      ⟨fun _ _ _ => Or.inl trivial, fun _ _ _ hn => hn.elim⟩
  have hs := idle_runs (fun _ _ _ _ => Or.inl trivial) hrun
  rw [Settling, Sound, hidle] at hs
  have hplain : Plain found m.shared := by
    rcases hend with ⟨t, ht, ho⟩ | hstate
    · exact hs.2 t ht ho
    · exact hs.1.plain hstate
  exact ⟨hplain.env, hplain.fetch⟩

/-- A proxy that is started and stopped. -/
theorem restored_stopped :
    (after .stop (after .start cachedInitial)).shared.globals.env =
        cachedInitial.shared.globals.env ∧
      (after .stop (after .start cachedInitial)).shared.globals.fetch = .native := by
  have started := after_runs (fun _ => true) .start cachedInitial (by simp [system]) rfl
    fun _ _ => rfl
  have stopped := after_runs (fun _ => true) .stop (after .start cachedInitial)
    (by simp [system]) rfl fun _ _ => rfl
  have hrun : Runs (system cachedHost) cachedInitial (after .stop (after .start cachedInitial)) :=
    (started.mono fun _ _ _ _ _ => trivial).trans (stopped.mono fun _ _ _ _ _ => trivial)
  exact restored hrun rfl (Or.inl ⟨_, rfl, rfl⟩)

/-! ## The status -/

/-- The server held listens. -/
def Serving (w : World) : Prop := ∃ id, w.server = some id ∧ id ∈ w.listening

/-- The status agrees with what is held and what is injected. -/
structure Truthful (host : Host) (found : Globals) (flags : Flags) (w : World) : Prop where
  running_iff : (status host flags w).state = .running ↔ Serving w
  serving : Serving w → (∃ id, w.server = some id ∧ w.ports id = some (status host flags w).port) ∧
    w.globals.env "HTTP_PROXY".toList = some (proxyUrl (status host flags w).port)
  idle : ¬ Serving w → (status host flags w).port = 0 ∧ w.globals.env = found.env

/-- Where operations begin well and boots get good replies, the status tells the truth
between operations. -/
theorem status_truthful {disk : Disk} {config : Config} {Nulled : Nat → Prop}
    {m : Machine interface}
    (h : RunsIf ((system host).answering (Good host)) (BeginsWell False Nulled)
      (initial found disk config) m) (hidle : m.running = none) :
    Truthful host found m.flags m.shared := by
  have hs := idle_runs (fun _ _ _ hg => Or.inr hg) h
  rw [Settling, Sound, hidle] at hs
  rcases hs.1.truthful with hf | ⟨hstate, hup⟩ | ⟨hstate, hdown, hplain⟩
  · exact False.elim hf
  · obtain ⟨id, hid, hlistening, hport⟩ := hup.serves
    have hserving : Serving m.shared := ⟨id, hid, hlistening⟩
    constructor
    · exact ⟨fun _ => hserving, fun _ => hstate⟩
    · exact fun _ => ⟨⟨id, hid, hport⟩, hup.points⟩
    · exact fun hn => absurd hserving hn
  · have hn : ¬ Serving m.shared := by
      intro h
      obtain ⟨id, hid, _⟩ := h
      rw [hdown.server] at hid
      cases hid
    constructor
    · exact ⟨fun hrun => absurd hrun hstate, fun hs => absurd hs hn⟩
    · exact fun hs => absurd hs hn
    · exact fun _ => ⟨hdown.port, hplain.env⟩

/-- The schedule asks for nothing whose reply is not good, and begins nothing badly. -/
def good (m : Machine interface) : Bool :=
  (match m.running with
    | some ⟨_, _, .issued (.fetchSubscription _ _) _⟩ => false
    | some ⟨_, _, .issued .readCache _⟩ => m.shared.server.isNone
    | _ => true) && decide (m.flags.config.noProxy ≠ .null) &&
    (m.shared.server.isNone || m.flags.on)

theorem good_reply {m : Machine interface} (h : good m = true) {id : Nat} {o : Op} {q : Request}
    {k : q.Response → Program Unit} (hr : m.running = some ⟨id, o, .issued q k⟩) :
    ((system cachedHost).answering (Good cachedHost)).allowed q m.shared
      (cachedReply q m.shared) := by
  refine ⟨cachedReply_allowed q m.shared, fun _ => ⟨fun _ hf => ?_, fun hs hb => ?_⟩⟩
  · cases q with
    | fetchSubscription url fetchProxyUrl => simp [good, hr] at h
    | readCache =>
        obtain ⟨_, e, he⟩ := hf
        cases he
    | mkdir | writeCache raw | writeMeta time url | listen server | importUndici =>
        obtain ⟨e, he⟩ := hf
        cases he
    | settle | readMeta | readState | writeState selected => exact hf
  · cases q with
    | readCache =>
        simp only [good, hr, Bool.and_eq_true] at h
        exact hs (Option.isNone_iff_eq_none.mp h.1.1)
    | _ => exact hb

theorem good_begin {m : Machine interface} (h : good m = true) (o : Op) :
    WellBegun False m.flags m.shared o := by
  simp only [good, Bool.and_eq_true, decide_eq_true_eq] at h
  obtain ⟨⟨-, hnull⟩, hon⟩ := h
  cases o with
  | start =>
      rw [WellBegun]
      split
      · rename_i hheld
        rw [Option.isSome_iff_ne_none] at hheld
        exact (Bool.or_eq_true_iff.mp hon).resolve_left fun hn =>
          hheld (Option.isNone_iff_eq_none.mp hn)
      · exact fun _ => hnull
  | stop => trivial
  | restart => exact fun _ => hnull
  | updateSubscription => exact fun _ => hnull

theorem good_runs (n : Nat) (m : Machine interface)
    (hok : ∀ k < n, good (m.drive (system cachedHost) cachedReply k) = true) :
    RunsIf ((system cachedHost).answering (Good cachedHost)) (BeginsWell False fun _ => False) m
      (m.drive (system cachedHost) cachedReply n) := by
  have hrun : RunsIf ((system cachedHost).answering (Good cachedHost))
      (fun m l _ => l.internal ∧ good m = true) m
      (m.drive ((system cachedHost).answering (Good cachedHost)) cachedReply n) := by
    apply drive_runs_ok
    · exact fun m hm _ _ _ _ hr => good_reply hm hr
    · simp only [drive_answering]
      exact hok
  rw [drive_answering] at hrun
  exact hrun.mono fun m _ _ _ hc =>
    ⟨fun _ e _ => Or.inr (good_begin hc.2 e.2), fun _ _ _ hn => hn.elim⟩

/-- A proxy that is started. -/
theorem status_truthful_started : Truthful cachedHost cachedInitial.shared.globals
    (after .start cachedInitial).flags (after .start cachedInitial).shared := by
  have hcall : RunsIf ((system cachedHost).answering (Good cachedHost))
      (BeginsWell False fun _ => False) cachedInitial
      (cachedInitial.receive (system cachedHost) .start) :=
    .single ⟨_, .call (S := (system cachedHost).answering (Good cachedHost)) .start
      (by simp [system, System.answering]), nofun, nofun⟩
  exact status_truthful (hcall.trans (good_runs 20 _ (by decide))) rfl

/-- A start that finds the section disabled declares a proxy that is up disabled. -/
theorem start_denies_running_proxy :
    ¬ ∀ (host : Host) (found : Globals) (disk : Disk) (config : Config) (m : Machine interface),
      Runs (system host) (initial found disk config) m → m.running = none →
        Truthful host found m.flags m.shared := by
  intro h
  have started := after_runs (fun _ => true) .start cachedInitial (by simp [system]) rfl
    fun _ _ => rfl
  have disabled := after_runs (fun _ => true) (.configure { enabled := some false })
    (after .start cachedInitial) (by simp [system]) rfl fun _ _ => rfl
  have again := after_runs (fun _ => true) .start
    (after (.configure { enabled := some false }) (after .start cachedInitial))
    (by simp [system]) rfl fun _ _ => rfl
  have htruth := h cachedHost _ _ _ _ (((started.mono fun _ _ _ _ _ => trivial).trans
    (disabled.mono fun _ _ _ _ _ => trivial)).trans (again.mono fun _ _ _ _ _ => trivial)) rfl
  have hserving : Serving (after .start (after (.configure { enabled := some false })
      (after .start cachedInitial))).shared := ⟨0, by decide, by decide⟩
  have hstate := htruth.running_iff.mpr hserving
  revert hstate
  decide

end DshClashProxy.Core.Status
