import DshClashProxy.Core.Listener
import DshClashProxy.Lib.Beside

/-!
# Selecting a node

`selectNode` runs beside the queue: it sets the selection, and then it writes `state.json`. A
boot reads that file and takes the name in it over. Neither waits for the other, so a boot
can take over a name it has read before a later selection was made or written.
-/
namespace DshClashProxy.Core.Selection

open Js Manager
open Lib.Async Lib.Serial Lib.Beside

/-- The selection is the last one made. -/
def Agrees (w : World) : Prop := ∀ name ∈ w.chosen, w.selected = some name

/-- The file holds the last selection made. -/
def Written (w : World) : Prop := ∀ name ∈ w.chosen, w.disk.selected = some (some name)

/-- A name read from the file and not taken over yet is that of the last selection made. -/
def UpToDate (w : World) : Prop := ∀ read ∈ w.readName, ∀ name ∈ w.chosen, read = name

/-- What the operations in the queue leave to `selectNode`, and the other way round. -/
def terms : Terms interface where
  rely v w := w.readName = v.readName ∧ (Agrees v → Agrees w)
  guarantee v w :=
    w.chosen = v.chosen ∧ w.disk.selected = v.disk.selected ∧ (Agrees v → Agrees w)
  resumes := UpToDate
  rely_refl _ := ⟨rfl, id⟩
  rely_trans h h' := ⟨h'.1.trans h.1, fun ha => h'.2 (h.2 ha)⟩
  guarantee_refl _ := ⟨rfl, rfl, id⟩
  guarantee_trans h h' :=
    ⟨h'.1.trans h.1, h'.2.1.trans h.2.1, fun ha => h'.2.2 (h.2.2 ha)⟩

variable {host : Host} {v w : World}

/-! ## Operations in the queue -/

/-- The selection made, the one in effect and the one in the file. -/
def selection (w : World) : Option Text × Option Text × Option (Option Text) :=
  (w.chosen, w.selected, w.disk.selected)

theorem guarantee_of_selection (h : selection w = selection v) : terms.guarantee v w := by
  simp only [selection, Prod.mk.injEq] at h
  obtain ⟨hc, hs, hd⟩ := h
  refine ⟨hc, hd, fun ha name hname => ?_⟩
  rw [hs]
  exact ha name (hc ▸ hname)

theorem effect_selection {q : Request} (hq : ∀ selected, q ≠ .writeState selected)
    (r : q.Response) (w : World) : selection (effect q r w) = selection w := by
  unfold effect
  split
  · rfl
  · rfl
  · rfl
  · exact absurd rfl (hq _)
  · rfl
  · rfl

abbrev Leaves (host : Host) {α : Type} (p : Program α) : Prop :=
  Keeps (system host).toAnswers terms p

theorem leaves_request {q : Request} (hq : ∀ selected, q ≠ .writeState selected) :
    Leaves host (request q) :=
  keeps_request fun w r _ => guarantee_of_selection (effect_selection hq r w)

theorem leaves_modify {f : World → World} (hf : ∀ w, selection (f w) = selection w) :
    Leaves host (Prog.modify f) := keeps_modify fun w => guarantee_of_selection (hf w)

theorem leaves_rethrow {α : Type} (x : Except Text α) :
    Leaves host (Prog.ofExcept x : Program α) := keeps_ofExcept (I := interface) x

/-- A request whose failure is rethrown. -/
theorem leaves_answer {α β : Type} {p : Program (Except Text β)} {f : β → Program α}
    (hp : Leaves host p) (hf : ∀ b, Leaves host (f b)) :
    Leaves host (p >>= fun r => Prog.ofExcept r >>= f) := by
  apply keeps_bind hp
  intro r
  exact keeps_bind (leaves_rethrow r) hf

theorem leaves_loadFromUrl (config : Config) (url : Text) :
    Leaves host (loadFromUrl host config url) := by
  apply leaves_answer (leaves_request (by simp))
  intro raw
  apply leaves_answer (leaves_request (by simp))
  intro _
  apply leaves_answer (leaves_request (by simp))
  intro _
  apply keeps_bind keeps_flags
  intro flags
  apply leaves_answer (leaves_request (by simp))
  intro _
  apply keeps_bind keeps_flags
  intro flags
  apply keeps_bind (leaves_rethrow _)
  intro parsed
  exact leaves_modify fun _ => rfl

theorem leaves_loadFromCache : Leaves host (loadFromCache host) := by
  apply keeps_bind (leaves_request (by simp))
  intro r
  dsimp only
  split
  · exact leaves_modify fun _ => rfl
  · apply keeps_bind (leaves_request (by simp))
    intro r
    apply keeps_bind (leaves_rethrow _)
    intro parsed
    exact leaves_modify fun _ => rfl

theorem leaves_loadSubscription (config : Config) (force : Bool) :
    Leaves host (loadSubscription host config force) := by
  apply keeps_bind keeps_read
  intro w
  split
  · exact keeps_pure ()
  · split
    · exact leaves_loadFromCache
    · exact leaves_loadFromUrl config _

/-- A boot takes over the name it has read. -/
theorem leaves_loadState : Leaves host loadState := by
  intro v w h
  apply along_bind
  refine ⟨h, fun t _ r _ => ⟨?_, fun u hu hresumes => ?_⟩⟩
  · exact guarantee_of_selection (effect_selection (q := .readState) (by simp) r t)
  · rcases r with e | _ | read
    · exact terms.guarantee_refl u
    · exact terms.guarantee_refl u
    · -- nobody else has taken the name over meanwhile
      have hread : u.readName = some read := hu.1
      refine ⟨rfl, rfl, fun _ name hname => ?_⟩
      rw [← hresumes read hread name hname]

theorem leaves_launch (config : Config) (subscription : Subscription) :
    Leaves host (launch host config subscription) := by
  apply keeps_bind keeps_read
  intro v
  apply keeps_bind
  · exact leaves_modify fun _ => rfl
  intro _
  apply leaves_answer (leaves_request (by simp))
  intro port
  apply keeps_bind
  · exact leaves_modify fun _ => rfl
  intro _
  apply keeps_bind keeps_read
  intro u
  apply keeps_bind (leaves_rethrow _)
  intro injected
  apply keeps_bind
  · exact leaves_modify fun _ => rfl
  intro _
  apply leaves_answer (leaves_request (by simp))
  intro undici
  apply keeps_bind
  · exact leaves_modify fun _ => rfl
  intro _
  apply keeps_bind
  · exact leaves_modify fun _ => rfl
  intro _
  apply keeps_bind
  · apply leaves_modify
    exact World.scheduleAutoUpdate_same (fun _ _ => rfl) config
  intro _
  exact leaves_modify fun _ => rfl

theorem leaves_boot (config : Config) : Leaves host (boot host config) := by
  apply keeps_bind (leaves_loadSubscription config false)
  intro _
  apply keeps_bind keeps_read
  intro w
  split
  · exact leaves_modify fun _ => rfl
  · apply keeps_bind leaves_loadState
    intro _
    exact leaves_launch config _

theorem leaves_awaitUndoDispatcher : Leaves host awaitUndoDispatcher := by
  apply keeps_bind
  · exact leaves_modify fun _ => rfl
  intro _
  apply keeps_bind (leaves_request (by simp))
  intro _
  exact leaves_modify fun _ => rfl

theorem leaves_awaitUndoEnv : Leaves host awaitUndoEnv := by
  apply keeps_bind
  · exact leaves_modify fun _ => rfl
  intro _
  apply keeps_bind (leaves_request (by simp))
  intro _
  exact leaves_modify fun _ => rfl

theorem leaves_bootFailed (error : Text) : Leaves host (bootFailed error) := by
  apply keeps_bind
  · exact leaves_modify fun _ => rfl
  intro _
  apply keeps_bind
  · exact leaves_modify fun _ => rfl
  intro _
  apply keeps_bind leaves_awaitUndoDispatcher
  intro _
  exact leaves_awaitUndoEnv

theorem leaves_startCore (config : Config) : Leaves host (startCore host config) := by
  apply keeps_bind
  · exact leaves_modify fun _ => rfl
  intro _
  apply keeps_bind leaves_awaitUndoDispatcher
  intro _
  apply keeps_bind leaves_awaitUndoEnv
  intro _
  exact keeps_tryCatch (leaves_boot config) leaves_bootFailed

theorem leaves_start : Leaves host (start host) := by
  apply keeps_bind keeps_flags
  intro flags
  apply keeps_bind keeps_read
  intro w
  split
  · exact leaves_modify fun _ => rfl
  · exact leaves_startCore _

theorem leaves_stop : Leaves host stop := by
  apply keeps_bind
  · exact leaves_modify fun _ => rfl
  intro _
  apply keeps_bind (leaves_request (by simp))
  intro _
  apply keeps_bind
  · exact leaves_modify fun _ => rfl
  intro _
  exact leaves_modify fun _ => rfl

theorem leaves_restart : Leaves host (restart host) := by
  apply keeps_bind keeps_flags
  intro flags
  split
  · exact leaves_startCore _
  · apply keeps_bind (keeps_enqueue _)
    intro id
    apply keeps_bind (keeps_settled id)
    exact leaves_rethrow

theorem leaves_updateSubscription : Leaves host (updateSubscription host) := by
  apply keeps_bind keeps_flags
  intro flags
  split
  · exact keeps_pure ()
  · apply keeps_bind (leaves_loadSubscription _ true)
    intro _
    exact leaves_startCore _

theorem leaves_body (o : Op) : Leaves host (body host o) := by
  cases o with
  | start => exact leaves_start
  | stop => exact leaves_stop
  | restart => exact leaves_restart
  | updateSubscription => exact leaves_updateSubscription

/-! ## Selecting -/

/-- The file system does what `saveState` asks of it. -/
def succeeds : (q : Request) → q.Response → Prop
  | .mkdir, r => r = .ok ()
  | .writeState _, r => r = .ok ()
  | _, _ => True

abbrev saving (host : Host) : Answers interface :=
  ((system host).answering fun q _ r => succeeds q r).toAnswers

/-- A call of `selectNode` that finds the node. -/
def selects (w : World) (p : Program Unit) : Prop :=
  ∃ name, (nodeMap w).contains name = true ∧ p = selectNode name

/-- It selects the node and writes the selection, whatever the queue does meanwhile. -/
theorem selectNode_along {p : Program Unit} (hp : selects w p) :
    along (saving host) terms.dual p (fun _ u v => terms.dual.guarantee u v ∧ Written v) w w := by
  obtain ⟨name, hname, rfl⟩ := hp
  show along (I := interface) _ _ (if (nodeMap w).contains name then _ else _) _ w w
  rw [if_pos hname]
  let chosen : World := { w with selected := some name, chosen := some name }
  have hagrees : Agrees chosen := fun _ h => h
  show along (I := interface) _ _ saveState _ w chosen
  apply along_tryCatch (I := interface)
  refine ⟨⟨rfl, fun _ => hagrees⟩, fun t ht r ha => ⟨terms.rely_refl t, fun u hu _ => ?_⟩⟩
  obtain rfl : r = .ok () := ha.2
  -- the queue has kept the selection while the directory was made
  have huchosen : u.chosen = some name := hu.1.trans ht.1
  have huagrees : Agrees u := hu.2.2 (ht.2.2 hagrees)
  have hselected : u.selected = some name := huagrees name huchosen
  refine ⟨terms.rely_refl u, fun t ht r ha => ?_⟩
  obtain rfl : r = .ok () := ha.2
  refine ⟨⟨rfl, fun h => h⟩, fun v hv _ => ?_⟩
  refine ⟨terms.rely_refl v, fun written hwritten => ?_⟩
  have hvchosen : v.chosen = some name := (hv.1.trans ht.1).trans huchosen
  have hfile : v.disk.selected = some u.selected := hv.2.1
  rw [hfile, hselected, ← hvchosen]
  exact congrArg some hwritten

/-! ## Runs -/

/-- Where a boot goes on with a name it has read, that is the name last selected. -/
def TakesOver (m : Machine interface) (l : Option (Label Call)) : Prop :=
  l = some .resume → UpToDate m.shared

theorem takesOver_none (m : Machine interface) : TakesOver m none := by
  intro h
  cases h

theorem takesOver_unchosen (m : Machine interface) (l : Label Call)
    (h : m.shared.chosen = none) : TakesOver m (some l) := by
  intro _ _ _ name hname
  rw [h] at hname
  cases hname

/-- Where boots go on so, no selection is lost: between calls of `selectNode` the node
selected is the one last chosen, and the file names it too. -/
theorem selection_kept {found : Inject.Globals} {disk : Disk} {config : Config}
    {b : Both interface}
    (h : Both.RunsIf (system host) (saving host) selects TakesOver
      ⟨initial found disk config, none⟩ b) (hidle : b.aside = none) {name : Text}
    (hchosen : b.machine.shared.chosen = some name) :
    b.machine.shared.selected = some name ∧
      b.machine.shared.disk.selected = some (some name) := by
  have hrun : Both.Fair (system host) (saving host) terms Written b ∧ Agrees b.machine.shared := by
    apply both_runs leaves_body _ _ _ _ h
    · exact ⟨nofun, fun _ => nofun, nofun⟩
    · exact nofun
    · exact fun w p hp => selectNode_along hp
    · intro v w hv hg written hwritten
      rw [hg.2.1]
      exact hv written (hg.1 ▸ hwritten)
    · intro v w hv hor
      rcases hor with hg | hr
      · exact hg.2.2 hv
      · exact hr.2 hv
    · exact fun m hm => hm rfl
  exact ⟨hrun.2 name hchosen, hrun.1.ended hidle name hchosen⟩

/-! ### A subscription with two nodes -/

def nodesHost : Host where
  cases := .ascii
  parseSubscription _ := .ok { names := ["a".toList, "b".toList],
                               nodes := ["a".toList, "b".toList] }
  subscriptionUrlEnv := "CLASH_SUBSCRIPTION_URL".toList

/-- The file is read as it is. -/
def nodesReply : (q : Request) → World → q.Response
  | .readState, w =>
      match w.disk.selected with
      | some selected => .ok selected
      | none => .error "ENOENT".toList
  | q, w => Listener.cachedReply q w

theorem nodesReply_allowed (q : Request) (w : World) :
    (system nodesHost).allowed q w (nodesReply q w) := by
  cases q with
  | readState =>
      simp only [system, nodesReply]
      split
      · rename_i hselected
        exact hselected
      · trivial
  | _ => exact Listener.cachedReply_allowed _ w

theorem nodesReply_saving (q : Request) (w : World) :
    (saving nodesHost).allowed q w (nodesReply q w) := by
  refine ⟨nodesReply_allowed q w, ?_⟩
  cases q with
  | mkdir | writeState selected => rfl
  | _ => trivial

/-- A manager with this selection in its file, started. -/
def nodesInitial : Machine interface :=
  initial { env := fun _ => none }
    { subscription := some "proxies: []".toList, selected := some (some "a".toList) } {}

def nodesStarted (n : Nat) : Machine interface :=
  (nodesInitial.receive (system nodesHost) .start).drive (system nodesHost) nodesReply n

/-- The other node selected, with nothing in between. -/
def nodesSelected (n : Nat) : Both interface :=
  (Both.turn (selectNode "b".toList) ⟨nodesStarted n, none⟩).follow (saving nodesHost) nodesReply 4

variable {cond : Machine interface → Option (Label Call) → Prop}

theorem nodesStarted_runs (hc : ∀ m l, m.shared.chosen = none → cond m (some l)) {n : Nat}
    (hn : n ≤ 20) :
    Both.RunsIf (system nodesHost) (saving nodesHost) selects cond ⟨nodesInitial, none⟩
      ⟨nodesStarted n, none⟩ := by
  have hnone : ∀ k < 20, (nodesStarted k).shared.chosen.isNone = true := by decide
  apply queue_runs
  apply RunsIf.trans
  · exact .single ⟨_, .call (S := system nodesHost) .start (by simp [system]), hc _ _ rfl⟩
  · apply (drive_runs nodesReply_allowed
      (fun m : Machine interface => m.shared.chosen.isNone) n _ _).mono
    · exact fun m l _ _ h => hc m l (Option.isNone_iff_eq_none.mp h.2)
    · exact fun k hk => hnone k (Nat.lt_of_lt_of_le hk hn)

theorem nodesSelected_runs (hc : ∀ m, cond m none) {n : Nat}
    (hname : (nodeMap (nodesStarted n).shared).contains "b".toList = true) :
    Both.RunsIf (system nodesHost) (saving nodesHost) selects cond ⟨nodesStarted n, none⟩
      (nodesSelected n) := by
  have hstart : Both.Step (system nodesHost) (saving nodesHost) selects ⟨nodesStarted n, none⟩
      none (Both.turn (selectNode "b".toList) ⟨nodesStarted n, none⟩) :=
    .start rfl ⟨_, hname, rfl⟩
  exact .head ⟨none, hstart, hc _⟩ (follow_runs hc nodesReply_saving 4 _)

/-- A node selected in a running manager. -/
theorem selection_kept_started :
    (nodesSelected 20).machine.shared.selected = some "b".toList ∧
      (nodesSelected 20).machine.shared.disk.selected = some (some "b".toList) := by
  have hstarted := nodesStarted_runs takesOver_unchosen (Nat.le_refl 20)
  have hselected := nodesSelected_runs takesOver_none (n := 20) (by decide)
  exact selection_kept (hstarted.trans hselected) rfl rfl

/-- The boot that had read the file before goes on. -/
def nodesBooted : Machine interface :=
  (nodesSelected 10).machine.drive (system nodesHost) nodesReply 20

theorem nodesBooted_runs :
    Both.RunsIf (system nodesHost) (saving nodesHost) selects (fun _ _ => True)
      ⟨nodesInitial, none⟩ ⟨nodesBooted, none⟩ := by
  have hstarted : Both.RunsIf (system nodesHost) (saving nodesHost) selects (fun _ _ => True)
      ⟨nodesInitial, none⟩ ⟨nodesStarted 10, none⟩ :=
    nodesStarted_runs (fun _ _ _ => trivial) (by decide)
  have hselected : Both.RunsIf (system nodesHost) (saving nodesHost) selects (fun _ _ => True)
      ⟨nodesStarted 10, none⟩ ⟨(nodesSelected 10).machine, none⟩ :=
    nodesSelected_runs (fun _ => trivial) (by decide)
  have hbooted : Both.RunsIf (system nodesHost) (saving nodesHost) selects (fun _ _ => True)
      ⟨(nodesSelected 10).machine, none⟩ ⟨nodesBooted, none⟩ := by
    apply queue_runs
    apply (drive_runs nodesReply_allowed (fun _ => true) 20 _ fun _ _ => rfl).mono
    exact fun _ _ _ _ _ => trivial
  exact (hstarted.trans hselected).trans hbooted

/-- A boot that has read the file takes the old name over after another was selected. -/
theorem boot_overwrites_selection :
    ¬ ∀ (host : Host) (found : Inject.Globals) (disk : Disk) (config : Config)
      (b : Both interface) (name : Text),
      Both.RunsIf (system host) (saving host) selects (fun _ _ => True)
        ⟨initial found disk config, none⟩ b →
      b.machine.running = none → b.machine.pending = [] → b.aside = none →
      b.machine.shared.chosen = some name →
      b.machine.shared.selected = some name ∧
        b.machine.shared.disk.selected = some (some name) := by
  intro h
  have hkept := h nodesHost _ _ _ _ "b".toList nodesBooted_runs rfl rfl rfl rfl
  exact absurd hkept.1 (by decide)

end DshClashProxy.Core.Selection
