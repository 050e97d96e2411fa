import DshClashProxy.Core.Listener

/-!
# The runtime switch

Once the stop queued by `setRuntimeEnabled(false)` has run, nothing listens and nothing is
injected. Start and restart read the switch and leave it so. An update of the subscription
does not read it; it leaves things off only where its boot does not get as far as the
fetch dispatcher.
-/
namespace DshClashProxy.Core.RuntimeSwitch

open Inject Manager Listener
open Lib.Async Lib.Serial

variable {host : Host} {found : Globals}

/-- The switch is off, and no update gets as far as the fetch dispatcher. -/
def SwitchedOff : Op → Contract interface := fun o =>
  { flags := fun flags => flags.runtimeOff = true
    issued := fun q _ => o = .updateSubscription → q ≠ .importUndici }

theorem off_of_runtimeOff {flags : Flags} (h : flags.runtimeOff = true) :
    flags.on = false := by
  rw [Flags.on, h]
  simp

abbrev StaysOff (host : Host) (found : Globals) (o : Op) (p : Program Unit) : Prop :=
  Keeps host (SwitchedOff o) (Off found) p

theorem start_off : StaysOff host found .start (start host) := by
  refine Triple.bind (R := fun flags t => flags.runtimeOff = true ∧ Off found t) ?_
    fun flags => ?_
  · exact triple_flags fun _ _ hc h => ⟨hc, h⟩
  refine spec_seq (fun _ t => flags.runtimeOff = true ∧ Off found t) ?_ fun v => ?_
  · exact triple_read fun _ h => h
  split
  · exact triple_modify fun w h => ofHolding_bare w _ rfl h.2
  · rename_i hon
    intro w h
    exact absurd (by rw [off_of_runtimeOff h.1]; simp) hon

theorem restart_off : StaysOff host found .restart (restart host) := by
  refine Triple.bind (R := fun flags t => flags.runtimeOff = true ∧ Off found t) ?_
    fun flags => ?_
  · exact triple_flags fun _ _ hc h => ⟨hc, h⟩
  split
  · rename_i hon
    intro w h
    exact absurd (off_of_runtimeOff h.1) (by simp [hon])
  · refine Triple.bind (triple_enqueue fun _ _ h => h.2) fun id => ?_
    exact Triple.bind (triple_settled fun _ _ h => h) fun r => keeps_ofExcept r

/-- An update that does not get as far as the fetch dispatcher has failed, and cleaned up,
or has found no subscription. -/
theorem updateSubscription_off :
    StaysOff host found .updateSubscription (updateSubscription host) := by
  refine Triple.bind (triple_flags fun _ _ _ h => h) fun flags => ?_
  split
  · exact triple_pure fun _ h => h
  refine Triple.bind (keeps_loadSubscription ofHolding_bare flags.config true) fun _ => ?_
  have hspec : Spec host (SwitchedOff .updateSubscription)
      (fun w => Held found w ∧ w.server = none) (startCore host flags.config) _
      fun _ => Off found := startCore_spec (fun _ _ _ => rfl) flags.config
  refine hspec.mono (fun w h => ⟨h.held, h.server_eq⟩) (fun _ t h => ?_) fun _ _ h => h
  rcases h with h | h | ⟨_, _, h⟩
  · exact h
  · exact h
  · exact absurd rfl (h rfl)

theorem body_off (o : Op) {w : World} (hw : Off found w) :
    Ends SwitchedOff (Off found) (fun _ _ _ => True) (system host) o (body host o) w := by
  have keeps {p : Program Unit} (hp : StaysOff host found o p) :
      Ends SwitchedOff (Off found) (fun _ _ _ => True) (system host) o p w :=
    .of_triple hp (fun _ _ h => ⟨h, trivial⟩) hw
  cases o with
  | start => exact keeps start_off
  | stop => exact keeps (stop_spec.mono (fun _ h => Bare.held h) (fun _ _ h => h) fun _ _ h => h)
  | restart => exact keeps restart_off
  | updateSubscription => exact keeps updateSubscription_off

/-! ## Runs with the switch off -/

theorem runtimeOff_step {m m' : Machine interface} {l : Label Call}
    (h : Step (system host) m l m') (hl : l ≠ .call (.setRuntimeEnabled true))
    (hm : m.flags.runtimeOff = true) : m'.flags.runtimeOff = true := by
  cases l with
  | call c =>
      have hf : m'.flags = (call c m.flags).1 :=
        (congrArg Machine.flags (step_call h)).trans (receive_flags (S := system host) c m)
      rw [hf]
      cases c with
      | setRuntimeEnabled enabled =>
          cases enabled with
          | true => exact absurd rfl hl
          | false => rfl
      | reconcile next =>
          simp only [call, reconcile]
          split <;> exact hm
      | _ => exact hm
  | begin => rw [step_flags h trivial]; exact hm
  | answer => rw [step_flags h trivial]; exact hm
  | resume => rw [step_flags h trivial]; exact hm
  | joined => rw [step_flags h trivial]; exact hm

/-- An update stands at the import of undici, with its server listening and the environment
injected. -/
def updateLaunches (m : Machine interface) : Bool :=
  match m.running with
  | some ⟨_, .updateSubscription, .issued .importUndici _⟩ => true
  | _ => false

/-- The steps after `setRuntimeEnabled(false)`, whose stop has this identity: nobody
switches back on, no boot finds a server held until the stop has run, and no update gets as
far as the fetch dispatcher from then on. -/
def LeftOff (id : Nat) (m : Machine interface) (l : Label Call) (_ : Machine interface) : Prop :=
  l ≠ .call (.setRuntimeEnabled true) ∧ (¬ m.HasSettled id → bootsLone m = true) ∧
    (m.HasSettled id → updateLaunches m = false)

theorem meets_of_leftOff {m : Machine interface} (h : updateLaunches m = false)
    (hoff : m.flags.runtimeOff = true) : Meets SwitchedOff m := by
  refine ⟨fun _ => hoff, ?_⟩
  rintro id o q k hr rfl rfl
  rw [updateLaunches, hr] at h
  cases h

/-- The switch holds. -/
theorem runtime_switch_holds {disk : Disk} {config : Config} {m₀ m : Machine interface}
    (h₀ : RunsIf (system host) (fun m _ _ => bootsLone m = true) (initial found disk config) m₀)
    (h : RunsIf (system host) (LeftOff m₀.fresh)
      (m₀.receive (system host) (.setRuntimeEnabled false)) m)
    (hdone : m.HasSettled m₀.fresh) (hidle : m.running = none) :
    m.shared.listening = [] ∧ m.shared.globals.env = found.env ∧
      m.shared.globals.fetch = found.fetch ∧
      m.shared.globals.dispatcher = found.dispatcher := by
  have hu : Unused m₀ := unused_runs h₀ fun e he => by cases he
  have hflag := h.keeping (P := fun a : Machine interface => a.flags.runtimeOff = true)
    (fun _ _ _ hs hc hm => runtimeOff_step hs hc.1 hm) rfl
  have hs : Sound SwitchedOff (Off found) (fun _ _ _ => True) (system host) m := sound_handover
    (fun o _ hw => body_ends o hw) (fun o _ hw => body_off o hw)
    (fun _ _ _ hc hn => meets_of_bootsLone (hc.1.2.1 hn))
    (fun _ _ _ hc hn => meets_of_leftOff (hc.1.2.2 hn) hc.2)
    (fun _ _ _ hp => ⟨hp rfl, trivial⟩) (Nat.lt_succ_self _) ?_ ?_
    (sound_receive _ (sound_of_bootsLone h₀)) hflag.1 hdone
  · rw [Sound, hidle] at hs
    exact ⟨Off.listening hs.1, hs.1.env, hs.1.fetch, hs.1.dispatcher⟩
  · intro o hmem
    rcases mem_ops_enqueue.mp hmem with hmem | he
    · exact absurd (hu _ hmem) (Nat.lt_irrefl _)
    · exact (Prod.mk.inj he).2
  · exact hu.not_hasSettled

/-- The schedule of a switch-off and a call after it is a run in which nobody switches back
on. -/
theorem off_then_runs (ok : Machine interface → Bool) (c : Call)
    (hc : c ≠ .setRuntimeEnabled true) (m : Machine interface)
    (hstop : ∀ k < 20, ok ((m.receive (system cachedHost) (.setRuntimeEnabled false)).drive
      (system cachedHost) cachedReply k) = true)
    (he : (system cachedHost).enabled c (after (.setRuntimeEnabled false) m).shared)
    (hm : ok (after (.setRuntimeEnabled false) m) = true)
    (hcall : ∀ k < 20, ok (((after (.setRuntimeEnabled false) m).receive (system cachedHost)
      c).drive (system cachedHost) cachedReply k) = true) :
    RunsIf (system cachedHost)
      (fun m l _ => l ≠ .call (.setRuntimeEnabled true) ∧ ok m = true)
      (m.receive (system cachedHost) (.setRuntimeEnabled false))
      (after c (after (.setRuntimeEnabled false) m)) := by
  have hstopped := drive_runs cachedReply_allowed ok 20 _ hstop
  have hcalled := after_runs ok c _ he hm hcall
  refine RunsIf.trans (hstopped.mono fun _ l _ _ h => ⟨?_, h.2⟩)
    (hcalled.mono fun _ l _ _ h => ⟨?_, h.2⟩)
  · rintro rfl
    exact h.1
  · rintro rfl
    rcases h.1 with hl | hl
    · exact hl
    · exact hc (Label.call.inj hl).symm

/-- A proxy that runs, is switched off and is told to start. -/
theorem runtime_switch_holds_start :
    let off := after (.setRuntimeEnabled false) (after .start cachedInitial)
    (after .start off).shared.listening = [] ∧
      (after .start off).shared.globals.env = cachedInitial.shared.globals.env ∧
      (after .start off).shared.globals.fetch = .native ∧
      (after .start off).shared.globals.dispatcher = .native := by
  have started := after_runs bootsLone .start cachedInitial (by simp [system]) rfl (by decide)
  have left := off_then_runs (fun m => bootsLone m && !updateLaunches m) .start (by simp)
    (after .start cachedInitial) (by decide) (by simp [system]) rfl (by decide)
  refine runtime_switch_holds (started.mono fun _ _ _ _ h => h.2)
    (left.mono fun _ _ _ _ h => ⟨h.1, fun _ => ?_, fun _ => ?_⟩) (by decide) rfl
  · exact (Bool.and_eq_true_iff.mp h.2).1
  · simpa using (Bool.and_eq_true_iff.mp h.2).2

/-- An update of the subscription boots a switched-off proxy. -/
theorem update_overrides_switch :
    ¬ ∀ (host : Host) (found : Globals) (disk : Disk) (config : Config)
      (m₀ m : Machine interface), Runs (system host) (initial found disk config) m₀ →
      RunsIf (system host) (fun _ l _ => l ≠ .call (.setRuntimeEnabled true))
        (m₀.receive (system host) (.setRuntimeEnabled false)) m →
      m.HasSettled m₀.fresh → m.running = none →
      m.shared.listening = [] ∧ m.shared.globals.env = found.env ∧
        m.shared.globals.fetch = found.fetch ∧
        m.shared.globals.dispatcher = found.dispatcher := by
  intro h
  have updated := off_then_runs (fun _ => true) .updateSubscription (by simp) cachedInitial
    (fun _ _ => rfl) (by simp [system]) rfl fun _ _ => rfl
  have hoff := h cachedHost _ _ _ cachedInitial _ .refl (updated.mono fun _ _ _ _ h => h.1)
    (by decide) rfl
  exact absurd hoff.1 (by decide)

end DshClashProxy.Core.RuntimeSwitch
