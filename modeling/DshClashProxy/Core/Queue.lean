import DshClashProxy.Core.Listener

/-!
# The operation queue

No operation waits for another except a restart that finds the manager switched off: it
queues a stop behind itself and waits for it. As long as no restart begins so, whatever is
queued runs to its end. One that does begin so waits for ever, and everything behind it.
-/
namespace DshClashProxy.Core.Queue

open Manager Listener
open Lib.Async Lib.Serial

variable {host : Host} {c : Flags → Prop}

/-! ## Operations that wait for no other -/

theorem flat_rethrow {α : Type} (x : Except Js.Text α) :
    Flat c (Prog.ofExcept x : Program α) := flat_ofExcept (I := interface) x

theorem flat_loadFromUrl (config : Config) (url : Js.Text) :
    Flat c (loadFromUrl host config url) := by
  refine flat_bind (flat_request _) fun r => flat_bind (flat_rethrow r) fun raw => ?_
  refine flat_bind (flat_request _) fun r => flat_bind (flat_rethrow r) fun _ => ?_
  refine flat_bind (flat_request _) fun r => flat_bind (flat_rethrow r) fun _ => ?_
  refine flat_bind flat_flags fun flags => flat_bind (flat_request _) fun r => ?_
  refine flat_bind (flat_rethrow r) fun _ => flat_bind flat_flags fun flags => ?_
  exact flat_bind (flat_rethrow _) fun rules => flat_modify _

theorem flat_loadFromCache : Flat c (loadFromCache host) := by
  refine flat_bind (flat_request _) fun r => ?_
  dsimp only
  split
  · exact flat_modify _
  · refine flat_bind (flat_request _) fun r => ?_
    exact flat_bind (flat_rethrow _) fun rules => flat_modify _

theorem flat_loadSubscription (config : Config) (force : Bool) :
    Flat c (loadSubscription host config force) := by
  refine flat_bind flat_read fun w => ?_
  split
  · exact flat_pure ()
  · split
    · exact flat_loadFromCache
    · exact flat_loadFromUrl config _

theorem flat_launch (config : Config) (subscription : Subscription) :
    Flat c (launch host config subscription) := by
  refine flat_bind flat_read fun w => flat_bind (flat_modify _) fun _ => ?_
  refine flat_bind (flat_request _) fun r => flat_bind (flat_rethrow r) fun port => ?_
  refine flat_bind (flat_modify _) fun _ => flat_bind flat_read fun w => ?_
  refine flat_bind (flat_rethrow _) fun injected => flat_bind (flat_modify _) fun _ => ?_
  refine flat_bind (flat_request _) fun r => flat_bind (flat_rethrow r) fun undici => ?_
  refine flat_bind (flat_modify _) fun _ => flat_bind (flat_modify _) fun _ => ?_
  exact flat_bind (flat_modify _) fun _ => flat_modify _

theorem flat_boot (config : Config) : Flat c (boot host config) := by
  refine flat_bind (flat_loadSubscription config false) fun _ => flat_bind flat_read fun w => ?_
  split
  · exact flat_modify _
  · refine flat_bind (flat_bind (flat_request _) fun r => ?_) fun _ => flat_launch config _
    split
    · exact flat_modify _
    · exact flat_pure ()

theorem flat_awaitUndoDispatcher : Flat c awaitUndoDispatcher :=
  flat_bind (flat_modify _) fun _ => flat_bind (flat_request _) fun _ => flat_modify _

theorem flat_awaitUndoEnv : Flat c awaitUndoEnv :=
  flat_bind (flat_modify _) fun _ => flat_bind (flat_request _) fun _ => flat_modify _

theorem flat_bootFailed (error : Js.Text) : Flat c (bootFailed error) := by
  refine flat_bind (flat_modify _) fun _ => flat_bind (flat_modify _) fun _ => ?_
  exact flat_bind flat_awaitUndoDispatcher fun _ => flat_awaitUndoEnv

theorem flat_startCore (config : Config) : Flat c (startCore host config) := by
  refine flat_bind (flat_modify _) fun _ => flat_bind flat_awaitUndoDispatcher fun _ => ?_
  refine flat_bind flat_awaitUndoEnv fun _ => ?_
  exact flat_tryCatch (flat_boot config) flat_bootFailed

theorem flat_start : Flat c (start host) := by
  refine flat_bind flat_flags fun flags => flat_bind flat_read fun w => ?_
  split
  · exact flat_modify _
  · exact flat_startCore _

theorem flat_stop : Flat c stop := by
  refine flat_bind (flat_modify _) fun _ => flat_bind (flat_request _) fun _ => ?_
  exact flat_bind (flat_modify _) fun _ => flat_modify _

theorem flat_updateSubscription : Flat c (updateSubscription host) := by
  refine flat_bind flat_flags fun flags => ?_
  split
  · exact flat_pure ()
  · exact flat_bind (flat_loadSubscription _ true) fun _ => flat_startCore _

/-- A restart waits for no other operation where the flags allow it to boot. -/
theorem flat_restart : Flat (fun flags : Flags => flags.on = true) (restart host) := by
  intro flags hon
  change Flat _ (if flags.on then startCore host flags.config else _)
  rw [if_pos hon]
  exact flat_startCore _

theorem flat_body {o : Op} (ho : o ≠ .restart) : Flat c (body host o) := by
  cases o with
  | start => exact flat_start
  | stop => exact flat_stop
  | restart => exact absurd rfl ho
  | updateSubscription => exact flat_updateSubscription

/-! ## Runs -/

/-- A restart at the head of the queue finds flags that let it boot. -/
def restartsOn (m : Machine interface) : Bool :=
  match m.pending with
  | (_, .restart) :: _ => m.flags.on
  | _ => true

/-- The step begins no restart that finds the manager switched off. -/
def BeginsOn (m : Machine interface) (l : Label Call) (_ : Machine interface) : Prop :=
  l = .begin → restartsOn m = true

/-- What has started waits for no other operation. -/
def Flowing (m : Machine interface) : Prop :=
  ∀ t ∈ m.running, FlatSusp (fun _ : Flags => True) t.susp

theorem answered : Answered (system host) := by
  intro q w
  cases q with
  | settle => exact ⟨(), trivial⟩
  | _ => exact ⟨.error [], trivial⟩

theorem flowing_step {m m' : Machine interface} {l : Label Call}
    (h : Step (system host) m l m') (hl : BeginsOn m l m') (hm : Flowing m) : Flowing m' := by
  refine flat_step (fun id o rest hbegin hp => ?_) trivial h hm
  by_cases ho : o = .restart
  · subst ho
    have hon : m.flags.on = true := by
      have hr := hl hbegin
      rwa [restartsOn, hp] at hr
    change ∀ t ∈ (Machine.advance (I := interface) id Op.restart
      (if m.flags.on then startCore host m.flags.config else _) _).running, _
    rw [if_pos hon]
    exact flat_advance trivial (flat_startCore _)
  · exact flat_advance trivial (flat_body ho)

theorem flowing_runs {m m' : Machine interface} (h : RunsIf (system host) BeginsOn m m')
    (hm : Flowing m) : Flowing m' :=
  (h.keeping (P := Flowing) (fun _ _ _ hs hc => flowing_step hs hc) hm).2

theorem Flowing.not_awaitsPending {m : Machine interface} (hm : Flowing m) :
    ¬ AwaitsPending m := by
  intro h
  obtain ⟨id, o, j, k, hr, _⟩ := h
  exact hm _ hr

theorem restartsOn_of {m : Machine interface}
    (h : m.flags.on = true ∨ ∀ e ∈ m.pending.head?, e.2 ≠ .restart) : restartsOn m = true := by
  unfold restartsOn
  split
  · rename_i hp
    rcases h with h | h
    · exact h
    · exact absurd rfl (h _ (by rw [hp]; rfl))
  · rfl

variable (host) in
/-- The machine alone runs everything queued, where no restart is or restarts may boot. -/
theorem runs_through {m : Machine interface} (hm : Flowing m)
    (hon : m.flags.on = true ∨ ∀ e ∈ m.pending, e.2 ≠ .restart) :
    ∃ m', RunsIf (system host) (fun m l m' => l.internal ∧ BeginsOn m l m') m m' ∧
      m'.running = none ∧ m'.pending = [] ∧ ∀ e ∈ m.ops, m'.HasSettled e.1 := by
  have hdrain : ∃ m', Internal (system host) m.pending m m' ∧ m'.running = none ∧
      m'.pending = [] ∧ ∀ e ∈ m.ops, m'.HasSettled e.1 := by
    rcases hon with hon | hnone
    · refine drain (c := fun flags : Flags => flags.on = true) answered hon
        (fun t ht => (hm t ht).mono fun _ _ => trivial) fun e _ => ?_
      by_cases ho : e.2 = .restart
      · change Flat _ (body host e.2)
        rw [ho]
        exact flat_restart
      · exact flat_body ho
    · exact drain (c := fun _ : Flags => True) answered trivial (fun t ht => hm t ht)
        fun e he => flat_body (hnone e he)
  obtain ⟨m', hrun, hend⟩ := hdrain
  have hflags := (hrun.keeping (P := fun a : Machine interface => a.flags = m.flags)
    (fun _ _ _ hs hc ha => (step_flags hs hc.1).trans ha) rfl).1
  refine ⟨m', hflags.mono fun a l b _ hc => ⟨hc.1.1, fun hl => restartsOn_of ?_⟩, hend⟩
  rcases hon with hon | hnone
  · exact Or.inl (by rw [hc.2]; exact hon)
  · refine Or.inr fun e he => ?_
    obtain ⟨e', he', hhead⟩ := hc.1.2 hl
    obtain rfl : e' = e := Option.some.inj (hhead.symm.trans he)
    exact hnone e' he'

/-- A call begins no operation. -/
theorem call_runs {m : Machine interface} {c : Call} (he : (system host).enabled c m.shared) :
    RunsIf (system host) BeginsOn m (m.receive (system host) c) := by
  refine .single ⟨_, .call (S := system host) c he, fun h => ?_⟩
  cases h

variable (host) in
/-- A section that enables the manager, and the switch turned on, let restarts boot. -/
theorem switched_on (m : Machine interface) :
    ∃ m', RunsIf (system host) BeginsOn m m' ∧ m'.flags.on = true ∧ ∀ e ∈ m.ops, e ∈ m'.ops := by
  let enabled := m.receive (system host) (.configure { m.flags.config with enabled := some true })
  have h1 : RunsIf (system host) BeginsOn m enabled := call_runs (by simp [system])
  have h2 : RunsIf (system host) BeginsOn enabled
      (enabled.receive (system host) (.setRuntimeEnabled true)) := call_runs (by simp [system])
  refine ⟨_, h1.trans h2, rfl, fun e he => ?_⟩
  exact mem_ops_enqueue.mpr (Or.inl he)

/-- Where every restart begins with flags that let it boot: the running operation never
waits for one queued behind it, a machine with work can step, the machine alone runs
everything queued unless a restart is queued and the manager is switched off, and in any
case everything queued can still run. -/
theorem queue_never_blocks {found : Inject.Globals} {disk : Disk} {config : Config}
    {m : Machine interface}
    (h : RunsIf (system host) BeginsOn (initial found disk config) m) :
    ¬ AwaitsPending m ∧
    (m.running ≠ none ∨ m.pending ≠ [] → ∃ l m', Step (system host) m l m' ∧ l.internal) ∧
    ((m.flags.on = true ∨ ∀ e ∈ m.pending, e.2 ≠ .restart) →
      ∃ m', RunsIf (system host) (fun m l m' => l.internal ∧ BeginsOn m l m') m m' ∧
        m'.running = none ∧ m'.pending = [] ∧ ∀ e ∈ m.ops, m'.HasSettled e.1) ∧
    ∃ m', RunsIf (system host) BeginsOn m m' ∧ m'.running = none ∧ m'.pending = [] ∧
      ∀ e ∈ m.ops, m'.HasSettled e.1 := by
  have hm : Flowing m := flowing_runs h nofun
  refine ⟨hm.not_awaitsPending, fun hwork => ?_, runs_through host hm, ?_⟩
  · exact internal_step answered hwork fun id o j k hr => hm _ hr
  · obtain ⟨m₁, h₁, hon, hops⟩ := switched_on host m
    obtain ⟨m', h₂, hn, hp, hall⟩ := runs_through host (flowing_runs h₁ hm) (Or.inl hon)
    exact ⟨m', h₁.trans (h₂.mono fun _ _ _ _ hc => hc.2), hn, hp, fun e he => hall e (hops e he)⟩

/-- A restart queued over a running proxy. -/
theorem queue_never_blocks_restart :
    let queued := (after .start cachedInitial).receive (system cachedHost) .restart
    ¬ AwaitsPending queued ∧
    ∃ m', RunsIf (system cachedHost) BeginsOn queued m' ∧ m'.running = none ∧
      m'.pending = [] ∧ ∀ e ∈ queued.ops, m'.HasSettled e.1 := by
  have started := after_runs restartsOn .start cachedInitial (by simp [system]) rfl (by decide)
  have hqueued : RunsIf (system cachedHost) BeginsOn (after .start cachedInitial)
      ((after .start cachedInitial).receive (system cachedHost) .restart) :=
    call_runs (by simp [system])
  have hall := queue_never_blocks (RunsIf.trans (started.mono fun _ _ _ _ h _ => h.2) hqueued)
  exact ⟨hall.1, hall.2.2.2⟩

variable (host) in
/-- A restart that begins with the manager switched off queues a stop and waits for it. -/
theorem advance_restart_off {m : Machine interface} (id : Nat) (hoff : m.flags.on = false) :
    ∃ k, Machine.advance (I := interface) id Op.restart (restart host) m =
      { m.enqueue Op.stop with running := some ⟨id, Op.restart, .joining m.fresh k⟩ } := by
  refine ⟨fun r => Prog.ofExcept (I := interface) r, ?_⟩
  change Machine.advance (I := interface) id Op.restart
    (if m.flags.on then startCore host m.flags.config else _) m = _
  rw [if_neg (by simp [hoff])]
  rfl

/-- It waits for ever, and nothing runs any more. -/
theorem restart_off_settles_nothing {m m' : Machine interface} {id : Nat}
    {rest : List (Nat × Op)} (hu : Unused m) (hoff : m.flags.on = false)
    (h : Runs (system host) (Machine.advance (I := interface) id Op.restart (restart host)
      { m with pending := rest }) m') :
    AwaitsPending m' ∧ m'.settled = m.settled := by
  obtain ⟨k, he⟩ := advance_restart_off host (m := { m with pending := rest }) id hoff
  rw [he] at h
  have hb : Blocked ({ ({ m with pending := rest } : Machine interface).enqueue Op.stop with
      running := some ⟨id, Op.restart, .joining m.fresh k⟩ }) m.fresh := by
    refine ⟨⟨_, _, _, rfl⟩, by simp [Machine.enqueue], fun t ht hid => ?_⟩
    exact hu.not_hasSettled ⟨t, ht, hid⟩
  obtain ⟨hb', hs⟩ := blocked_runs h hb
  exact ⟨hb'.awaitsPending, hs⟩

/-- A restart of a disabled manager. -/
theorem restart_awaits_itself :
    ¬ ∀ (host : Host) (found : Inject.Globals) (disk : Disk) (config : Config)
      (m : Machine interface), Runs (system host) (initial found disk config) m →
      ¬ AwaitsPending m := by
  intro h
  let disabled : Machine interface :=
    initial cachedInitial.shared.globals {} { enabled := some false }
  have hrun : Runs (system cachedHost) disabled
      ((disabled.receive (system cachedHost) .restart).drive (system cachedHost) cachedReply 1) :=
    RunsIf.trans (.single ⟨_, .call (S := system cachedHost) .restart (by simp [system]),
      trivial⟩)
      ((drive_runs cachedReply_allowed (fun _ => true) 1 _ fun _ _ => rfl).mono
        fun _ _ _ _ _ => trivial)
  exact h cachedHost _ _ _ _ hrun ⟨_, _, _, _, rfl, by decide⟩

end DshClashProxy.Core.Queue
