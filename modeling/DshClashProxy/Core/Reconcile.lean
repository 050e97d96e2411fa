import DshClashProxy.Core.Build
import DshClashProxy.Core.Queue

/-!
# Reconciling a new section

A reconcile compares the new section with the one applied before and restarts when a field
in `RESTART_FIELDS` has changed. The restart keeps the subscription that is loaded, wherever
that came from.
-/
namespace DshClashProxy.Core.Reconcile

open Js Manager Queue Build
open Lib.Async Lib.Serial
open Boot (free Replies)

variable {host : Host} {G : Replies} {sub : Subscription} {source : Option Text}
  {config : Config}

/-! ## The signature -/

/-- The settings among these that are set. -/
def settings (fields : List (String × Option Json)) : Signature :=
  fields.filterMap fun e => e.2.map fun value => (e.1.toList, value)

theorem lookup_settings_ne {key : Text} {name : String} (h : key ≠ name.toList)
    (value : Option Json) (fields : List (String × Option Json)) :
    (settings ((name, value) :: fields)).lookup key = (settings fields).lookup key := by
  cases value with
  | none => rfl
  | some v =>
      show ((name.toList, v) :: settings fields).lookup key = _
      rw [List.lookup_cons, beq_eq_false_iff_ne.mpr h]

theorem lookup_settings_self {name : String} (value : Option Json)
    {fields : List (String × Option Json)} (h : (settings fields).lookup name.toList = none) :
    (settings ((name, value) :: fields)).lookup name.toList = value := by
  cases value with
  | none => exact h
  | some v =>
      show ((name.toList, v) :: settings fields).lookup name.toList = _
      rw [List.lookup_cons_self]

theorem lookup_extraRules (next : Config) :
    (signature next).lookup "extraRules".toList = next.extraRules.map Json.texts := by
  iterate 7 refine (lookup_settings_ne (by decide) _ _).trans ?_
  apply lookup_settings_self
  iterate 2 refine (lookup_settings_ne (by decide) _ _).trans ?_
  rfl

theorem lookup_excludeRules (next : Config) :
    (signature next).lookup "excludeRules".toList = next.excludeRules.map Json.texts := by
  iterate 8 refine (lookup_settings_ne (by decide) _ _).trans ?_
  apply lookup_settings_self
  exact (lookup_settings_ne (by decide) _ _).trans rfl

theorem texts_injective : Function.Injective Json.texts := fun _ _ h => Json.texts.inj h

/-- The signature tells the rules, and so the engine. -/
theorem newEngine_of_signature {a b : Config} (h : signature a = signature b) :
    newEngine host a sub = newEngine host b sub := by
  have hextra : a.extraRules = b.extraRules := by
    apply Option.map_injective texts_injective
    rw [← lookup_extraRules, ← lookup_extraRules, h]
  have hexclude : a.excludeRules = b.excludeRules := by
    apply Option.map_injective texts_injective
    rw [← lookup_excludeRules, ← lookup_excludeRules, h]
  rw [newEngine, newEngine, hextra, hexclude]

/-! ## Reconciles -/

variable (host G) in
/-- A reconcile of this section, with the live section the other. -/
def reconciled (next config : Config) (m : Machine interface) : Machine interface :=
  (m.receive ((system host).answering G) (.configure config)).receive
    ((system host).answering G) (.reconcile next)

/-- Reconciles of these sections, the oldest first, between which the machine takes steps by
itself and the clock goes on. The live section is the one reconciled or already the last. -/
inductive Reconciled (host : Host) (G : Replies) (last : Config) (m : Machine interface) :
    List Config → Machine interface → Prop where
  | refl : Reconciled host G last m [] m
  | step {nexts : List Config} {a b : Machine interface} {l : Label Call}
      (h : Reconciled host G last m nexts a) (hs : Step ((system host).answering G) a l b)
      (hl : l.internal ∨ ∃ now, l = .call (.tick now)) : Reconciled host G last m nexts b
  | reconcile {nexts : List Config} {a : Machine interface} (next config : Config)
      (h : Reconciled host G last m nexts a) (hc : config = next ∨ config = last) :
      Reconciled host G last m (nexts ++ [next]) (reconciled host G next config a)

variable {a b : Machine interface} {l : Label Call} {next last : Config}

theorem reconciled_same (h : a.flags.applied = some (signature next)) :
    reconciled host G next config a = { a with flags := { a.flags with config := config } } := by
  have hcall : Manager.reconcile next { a.flags with config := config } =
      ({ a.flags with config := config }, []) := if_pos h
  show (Manager.reconcile next { a.flags with config := config }).2.foldl Machine.enqueue
    { a with flags := (Manager.reconcile next { a.flags with config := config }).1 } = _
  rw [hcall]
  rfl

theorem reconciled_new (h : a.flags.applied ≠ some (signature next))
    (he : next.enabled ≠ some false) :
    reconciled host G next config a = Machine.enqueue { a with
      flags := { a.flags with config := config, applied := some (signature next) } }
      Op.restart := by
  have hcall : Manager.reconcile next { a.flags with config := config } =
      ({ a.flags with config := config, applied := some (signature next) }, [.restart]) := by
    rw [Manager.reconcile, if_neg h, if_neg he]
  show (Manager.reconcile next { a.flags with config := config }).2.foldl Machine.enqueue
    { a with flags := (Manager.reconcile next { a.flags with config := config }).1 } = _
  rw [hcall]
  rfl

/-- What a manager on which only restarts are queued comes to. -/
structure Rebuilt (host : Host) (last : Config) (sub : Subscription) (source : Option Text)
    (m : Machine interface) (w : World) : Prop where
  uses : Uses sub source w
  engine : m.pending = [] → m.flags.applied = some (signature last) →
    w.engine = some (newEngine host last sub)

/-- Restarts have been queued on a manager that is switched on. -/
structure Restarting (host : Host) (G : Replies) (last : Config) (sub : Subscription)
    (source : Option Text) (m : Machine interface) : Prop where
  on : m.flags.on = true
  restarts : ∀ e ∈ m.pending, e.2 = .restart
  flowing : Flowing m
  live : m.flags.applied = some (signature last) →
    newEngine host m.flags.config sub = newEngine host last sub
  sound : Sound (fun _ => free) (Rebuilt host last sub source m) (fun _ _ _ => True)
    ((system host).answering G) m

theorem restarting_new (hon : a.flags.runtimeOff = false)
    (hrestarts : ∀ e ∈ a.pending, e.2 = .restart) (hflow : Flowing a)
    (hs : Sound (fun _ => free) (Uses sub source) (fun _ _ _ => True)
      ((system host).answering G) a)
    (hnew : a.flags.applied ≠ some (signature next)) (hc : config = next ∨ config = last)
    (hnext : next.enabled ≠ some false) (hlast : last.enabled ≠ some false) :
    Restarting host G last sub source (reconciled host G next config a) := by
  rw [reconciled_new hnew hnext]
  have hconfig : config.enabled ≠ some false := by
    rcases hc with rfl | rfl
    · exact hnext
    · exact hlast
  constructor
  · simp [Machine.enqueue, Flags.on, hon, hconfig]
  · intro e he
    simp only [Machine.enqueue, List.mem_append, List.mem_singleton] at he
    rcases he with he | rfl
    · exact hrestarts e he
    · rfl
  · exact hflow
  · intro happlied
    have hsig : signature next = signature last := Option.some.inj happlied
    rcases hc with rfl | rfl
    · exact newEngine_of_signature hsig
    · rfl
  · -- something is queued, so nothing is said of the engine yet
    apply Sound.mono (m := a) _ hs
    intro w hw
    exact ⟨hw, fun hp => by simp [Machine.enqueue] at hp⟩

theorem restarting_same (h : Restarting host G last sub source a)
    (hsame : a.flags.applied = some (signature next)) (hc : config = next ∨ config = last)
    (hnext : next.enabled ≠ some false) (hlast : last.enabled ≠ some false) :
    Restarting host G last sub source (reconciled host G next config a) := by
  rw [reconciled_same hsame]
  constructor
  · have hon := h.on
    simp only [Flags.on, Bool.and_eq_true] at hon ⊢
    rcases hc with rfl | rfl
    · exact ⟨by simp [hnext], hon.2⟩
    · exact ⟨by simp [hlast], hon.2⟩
  · exact h.restarts
  · exact h.flowing
  · intro happlied
    have hsig : signature next = signature last :=
      Option.some.inj (hsame.symm.trans happlied)
    rcases hc with rfl | rfl
    · exact newEngine_of_signature hsig
    · rfl
  · exact h.sound.mono (m := a) fun w hw => ⟨hw.uses, hw.engine⟩

theorem received_tick {now : Nat}
    (hs : Step ((system host).answering G) a (.call (.tick now)) b) :
    b = { a with flags := { a.flags with now := now } } := step_call hs

theorem restarting_tick {now : Nat} (h : Restarting host G last sub source a)
    (hs : Step ((system host).answering G) a (.call (.tick now)) b) :
    Restarting host G last sub source b := by
  obtain rfl := received_tick hs
  exact ⟨h.on, h.restarts, h.flowing, h.live,
    h.sound.mono (m := a) fun w hw => ⟨hw.uses, hw.engine⟩⟩

/-- The machine alone takes restarts from the queue and queues nothing. -/
theorem flowing_pending {l : Label ((system host).answering G).Call}
    (h : Step ((system host).answering G) a l b) (hl : l.internal) (hflow : Flowing a)
    (hon : a.flags.on = true) (hr : ∀ e ∈ a.pending, e.2 = .restart) :
    b.pending = a.pending ∨ l = .begin ∧ ∃ e, a.pending = e :: b.pending := by
  cases h with
  | call c _ => exact False.elim hl
  | @begin id o rest hrun hp =>
      right
      constructor
      · rfl
      obtain rfl : o = .restart := hr (id, o) (by rw [hp]; exact List.mem_cons_self)
      have hflat : Flat (fun flags : Flags => flags.on = true) (restart host) := flat_restart
      refine ⟨(id, .restart), ?_⟩
      rw [hp]
      exact congrArg _ (flat_advance_pending (m := { a with pending := rest }) hon hflat).symm
  | answer hrun r ha => exact Or.inl rfl
  | resume hrun => exact Or.inl (flat_advance_pending trivial (hflow _ hrun))
  | joined hrun ht hj => exact Or.inl rfl

/-- A restart of a manager that is switched on builds its engine from the live section. -/
theorem restart_builds (hon : a.flags.on = true) (id : Nat) (hs : Uses sub source a.shared) :
    Sound (fun _ => free) (Built host a.flags.config sub source) (fun _ _ _ => True)
      ((system host).answering G)
      (Machine.advance (I := interface) id Op.restart (restart host) a) := by
  show Sound _ _ _ _ (Machine.advance (I := interface) id Op.restart
    (if a.flags.on then startCore host a.flags.config else _) a)
  rw [if_pos hon]
  apply sound_advance trivial
  exact Ends.of_triple startCore_builds (fun _ _ h => ⟨h, trivial⟩) hs

theorem restarting_step {l : Label ((system host).answering G).Call}
    (h : Restarting host G last sub source a) (hs : Step ((system host).answering G) a l b)
    (hl : l.internal) : Restarting host G last sub source b := by
  have hflags : b.flags = a.flags := step_flags hs hl
  have hpending := flowing_pending hs hl h.flowing h.on h.restarts
  constructor
  · rw [hflags]
    exact h.on
  · rcases hpending with hp | ⟨_, e, hp⟩
    · rw [hp]
      exact h.restarts
    · exact fun o ho => h.restarts o (by rw [hp]; exact List.mem_cons_of_mem _ ho)
  · exact flowing_step hs.of_answering (fun _ => restartsOn_of (Or.inl h.on)) h.flowing
  · rw [hflags]
    exact h.live
  · by_cases hbegin : l = .begin
    · subst hbegin
      cases hs with
      | @begin id o rest hrun hp =>
          obtain rfl : o = .restart := h.restarts (id, o) (by rw [hp]; exact List.mem_cons_self)
          have hidle := h.sound
          rw [Sound, hrun] at hidle
          have hbuilds : Sound (fun _ => free) _ (fun _ _ _ => True) ((system host).answering G)
              (Machine.advance (I := interface) id Op.restart (restart host)
                { a with pending := rest }) :=
            restart_builds (a := { a with pending := rest }) h.on id hidle.1.uses
          apply hbuilds.mono
          intro w hw
          constructor
          · exact hw.toUses
          · intro _ happlied
            rw [hflags] at happlied
            rw [hw.engine, ← h.live happlied]
    · have hsound : Sound (fun _ => free) (Rebuilt host last sub source a) (fun _ _ _ => True)
          ((system host).answering G) b := by
        apply sound_step_begin _ _ hs h.sound
        · exact fun _ _ _ hb => absurd hb hbegin
        · exact ⟨fun _ => trivial, fun _ _ _ _ _ => trivial⟩
      have hp : b.pending = a.pending := hpending.resolve_right fun hb => hbegin hb.1
      apply hsound.mono
      intro w hw
      constructor
      · exact hw.uses
      · rw [hp, hflags]
        exact hw.engine

/-! ## A manager that is switched off -/

/-- A restart is queued that finds the manager switched off, or has found it so. -/
structure Stuck (m : Machine interface) : Prop where
  off : m.flags.runtimeOff = true
  unused : Unused m
  stuck : (∃ j, Blocked m j) ∨
    m.running = none ∧ m.pending ≠ [] ∧ ∀ e ∈ m.pending, e.2 = .restart

theorem Stuck.pending (h : Stuck a) : a.pending ≠ [] := by
  rcases h.stuck with ⟨j, hb⟩ | ⟨_, hp, _⟩
  · intro hnil
    have hj := hb.pending
    rw [hnil] at hj
    cases hj
  · exact hp

theorem stuck_step {l : Label ((system host).answering G).Call} (h : Stuck a)
    (hs : Step ((system host).answering G) a l b) (hl : l.internal) : Stuck b := by
  constructor
  · rw [step_flags hs hl]
    exact h.off
  · exact unused_step hs h.unused
  · left
    rcases h.stuck with ⟨j, hb⟩ | ⟨hrun, hne, hr⟩
    · exact ⟨j, (blocked_step hs hb).1⟩
    cases hs with
    | call c _ => exact False.elim hl
    | @begin id o rest hrun hp =>
        obtain rfl : o = .restart := hr (id, o) (by rw [hp]; exact List.mem_cons_self)
        have hoff : a.flags.on = false := by simp [Flags.on, h.off]
        obtain ⟨k, he⟩ := advance_restart_off host (m := { a with pending := rest }) id hoff
        refine ⟨a.fresh, ?_⟩
        show Blocked (Machine.advance (I := interface) id Op.restart (restart host) _) _
        rw [he]
        constructor
        · exact ⟨_, _, _, rfl⟩
        · simp [Machine.enqueue]
        · exact fun t ht hid => h.unused.not_hasSettled ⟨t, ht, hid⟩
    | answer hrun' r ha => rw [hrun] at hrun'; cases hrun'
    | resume hrun' => rw [hrun] at hrun'; cases hrun'
    | joined hrun' ht hj => rw [hrun] at hrun'; cases hrun'

variable (host G) in
theorem call_step {c : Call} (hc : c ≠ .autoUpdate) (m : Machine interface) :
    Step ((system host).answering G) m (.call c) (m.receive ((system host).answering G) c) :=
  .call (S := (system host).answering G) c fun h => absurd h hc

variable (host G config) in
theorem unused_reconciled (next : Config) (h : Unused a) :
    Unused (reconciled host G next config a) := by
  apply unused_step (call_step host G (by simp) _)
  exact unused_step (call_step host G (by simp) _) h

theorem stuck_reconciled (h : Stuck a) (he : next.enabled ≠ some false) :
    Stuck (reconciled host G next config a) := by
  have hunused := unused_reconciled host G config next h.unused
  by_cases happlied : a.flags.applied = some (signature next)
  · rw [reconciled_same happlied] at hunused ⊢
    constructor
    · exact h.off
    · exact hunused
    · exact h.stuck.imp (fun ⟨j, hb⟩ => ⟨j, hb.joining, hb.pending, hb.unsettled⟩) id
  · rw [reconciled_new happlied he] at hunused ⊢
    constructor
    · exact h.off
    · exact hunused
    · rcases h.stuck with ⟨j, hb⟩ | ⟨hrun, hne, hr⟩
      · left
        refine ⟨j, hb.joining, ?_, hb.unsettled⟩
        rw [Machine.enqueue, List.map_append]
        exact List.mem_append_left _ hb.pending
      · right
        refine ⟨hrun, by simp [Machine.enqueue], ?_⟩
        intro e hmem
        simp only [Machine.enqueue, List.mem_append, List.mem_singleton] at hmem
        rcases hmem with hmem | rfl
        · exact hr e hmem
        · rfl

theorem stuck_tick {now : Nat} (h : Stuck a)
    (hs : Step ((system host).answering G) a (.call (.tick now)) b) : Stuck b := by
  have hunused : Unused b := unused_step hs h.unused
  obtain rfl := received_tick hs
  constructor
  · exact h.off
  · exact hunused
  · exact h.stuck.imp (fun ⟨j, hb⟩ => ⟨j, hb.joining, hb.pending, hb.unsettled⟩) id

/-! ## What the last reconcile comes to -/

/-- No reconcile so far has found anything changed. -/
structure Quiet (m : Machine interface) (nexts : List Config) (a : Machine interface) : Prop where
  shared : a.shared = m.shared
  running : a.running = none
  pending : a.pending = []
  applied : a.flags.applied = m.flags.applied
  runtimeOff : a.flags.runtimeOff = m.flags.runtimeOff
  same : ∀ next ∈ nexts, m.flags.applied = some (signature next)

/-- Restarts have been queued, which boot or wait for ever. -/
def Changed (host : Host) (G : Replies) (last : Config) (sub : Subscription)
    (source : Option Text) (m : Machine interface) (nexts : List Config)
    (a : Machine interface) : Prop :=
  (∃ next ∈ nexts, m.flags.applied ≠ some (signature next)) ∧
    (Restarting host G last sub source a ∨ Stuck a)

variable {m : Machine interface} {nexts : List Config}

theorem quiet_step {l : Label ((system host).answering G).Call} (h : Quiet m nexts a)
    (hs : Step ((system host).answering G) a l b)
    (hl : l.internal ∨ ∃ now, l = .call (.tick now)) : Quiet m nexts b := by
  rcases hl with hl | ⟨now, rfl⟩
  · cases hs with
    | call c _ => exact False.elim hl
    | begin _ hp => rw [h.pending] at hp; cases hp
    | answer hrun _ _ => rw [h.running] at hrun; cases hrun
    | resume hrun => rw [h.running] at hrun; cases hrun
    | joined hrun _ _ => rw [h.running] at hrun; cases hrun
  · obtain rfl := received_tick hs
    exact ⟨h.shared, h.running, h.pending, h.applied, h.runtimeOff, h.same⟩

/-- The first reconcile that finds something changed. -/
theorem changed_quiet (h : Quiet m nexts a) (hunused : Unused a)
    (huses : Uses sub source m.shared) (hnew : m.flags.applied ≠ some (signature next))
    (hc : config = next ∨ config = last) (hnext : next.enabled ≠ some false)
    (hlast : last.enabled ≠ some false) :
    Restarting host G last sub source (reconciled host G next config a) ∨
      Stuck (reconciled host G next config a) := by
  have hnew' : a.flags.applied ≠ some (signature next) := by
    rw [h.applied]
    exact hnew
  have hrestarts : ∀ e ∈ a.pending, e.2 = Op.restart := by
    rw [h.pending]
    exact nofun
  by_cases hoff : a.flags.runtimeOff = true
  · right
    have hunused' := unused_reconciled host G config next hunused
    rw [reconciled_new hnew' hnext] at hunused' ⊢
    constructor
    · exact hoff
    · exact hunused'
    · right
      refine ⟨h.running, by simp [Machine.enqueue], ?_⟩
      intro e he
      rw [Machine.enqueue, h.pending] at he
      rw [List.mem_singleton.mp he]
  · left
    apply restarting_new (by simpa using hoff) hrestarts _ _ hnew' hc hnext hlast
    · intro t ht
      rw [h.running] at ht
      cases ht
    · rw [Sound, h.running, h.shared]
      exact ⟨huses, fun _ _ => trivial⟩

theorem restarting_reconciled (h : Restarting host G last sub source a)
    (hc : config = next ∨ config = last) (hnext : next.enabled ≠ some false)
    (hlast : last.enabled ≠ some false) :
    Restarting host G last sub source (reconciled host G next config a) := by
  by_cases hsame : a.flags.applied = some (signature next)
  · exact restarting_same h hsame hc hnext hlast
  · apply restarting_new _ h.restarts h.flowing _ hsame hc hnext hlast
    · have hon := h.on
      simp only [Flags.on, Bool.and_eq_true] at hon
      simpa using hon.2
    · exact h.sound.mono fun w hw => hw.uses

theorem reconciled_phases (hunused : Unused m) (hidle : m.running = none)
    (hqueue : m.pending = []) (huses : Uses sub source m.shared) (hlast : last.enabled ≠ some false)
    (h : Reconciled host G last m nexts a) (hnexts : ∀ next ∈ nexts, next.enabled ≠ some false) :
    Unused a ∧ (Quiet m nexts a ∨ Changed host G last sub source m nexts a) := by
  induction h with
  | refl => exact ⟨hunused, Or.inl ⟨rfl, hidle, hqueue, rfl, rfl, by simp⟩⟩
  | @step nexts a b l h hs hl ih =>
      obtain ⟨ha, hphase⟩ := ih hnexts
      refine ⟨unused_step hs ha, ?_⟩
      rcases hphase with hquiet | ⟨hnew, hr | hstuck⟩
      · exact Or.inl (quiet_step hquiet hs hl)
      · right
        refine ⟨hnew, Or.inl ?_⟩
        rcases hl with hl | ⟨now, rfl⟩
        · exact restarting_step hr hs hl
        · exact restarting_tick hr hs
      · right
        refine ⟨hnew, Or.inr ?_⟩
        rcases hl with hl | ⟨now, rfl⟩
        · exact stuck_step hstuck hs hl
        · exact stuck_tick hstuck hs
  | @reconcile nexts a next config h hc ih =>
      obtain ⟨ha, hphase⟩ := ih fun n hn => hnexts n (List.mem_append_left _ hn)
      have hnext : next.enabled ≠ some false := hnexts next (by simp)
      refine ⟨unused_reconciled host G config next ha, ?_⟩
      rcases hphase with hquiet | ⟨hnew, hphase⟩
      · by_cases hsame : m.flags.applied = some (signature next)
        · left
          rw [reconciled_same (hquiet.applied.trans hsame)]
          refine ⟨hquiet.shared, hquiet.running, hquiet.pending, hquiet.applied,
            hquiet.runtimeOff, fun n hn => ?_⟩
          rcases List.mem_append.mp hn with hn | hn
          · exact hquiet.same n hn
          · rw [List.mem_singleton.mp hn]
            exact hsame
        · right
          refine ⟨⟨next, by simp, hsame⟩, ?_⟩
          exact changed_quiet hquiet ha huses hsame hc hnext hlast
      · obtain ⟨n, hn, hne⟩ := hnew
        right
        refine ⟨⟨n, List.mem_append_left _ hn, hne⟩, ?_⟩
        rcases hphase with hr | hstuck
        · exact Or.inl (restarting_reconciled hr hc hnext hlast)
        · exact Or.inr (stuck_reconciled hstuck hnext)

theorem reconciled_applied (h : Reconciled host G last m nexts a)
    (hnexts : ∀ next ∈ nexts, next.enabled ≠ some false) :
    ∀ next ∈ nexts.getLast?, a.flags.applied = some (signature next) := by
  induction h with
  | refl => simp
  | @step nexts a b l h hs hl ih =>
      intro next hnext
      rcases hl with hl | ⟨now, rfl⟩
      · rw [step_flags hs hl]
        exact ih hnexts next hnext
      · obtain rfl := received_tick hs
        exact ih hnexts next hnext
  | @reconcile nexts a next config h hc ih =>
      intro n hn
      rw [List.getLast?_concat, Option.mem_some_iff] at hn
      subst hn
      by_cases hsame : a.flags.applied = some (signature next)
      · rw [reconciled_same hsame]
        exact hsame
      · rw [reconciled_new hsame (hnexts next (by simp))]
        rfl

/-- The steps of the machine alone. -/
theorem Reconciled.runs (h : Reconciled host G last m nexts a)
    (hr : RunsIf ((system host).answering G) (fun _ l _ => l.internal) a b) :
    Reconciled host G last m nexts b := by
  induction hr with
  | refl => exact h
  | tail _ hl ih =>
      obtain ⟨l, hs, hl⟩ := hl
      exact ih.step hs (Or.inl hl)

/-- Once reconciles of a running manager have come to rest, it has converged to the last
section exactly where its subscription came from that section's URL already and either some
section was new or its engine was already built from the last one's rules. -/
theorem reconcile_converges {found : Inject.Globals} {disk : Disk}
    (hrun : Runs ((system host).answering G) (initial found disk config) m)
    (hidle : m.running = none) (hqueue : m.pending = []) (hstate : m.shared.state = .running)
    (hnexts : ∀ next ∈ nexts, next.enabled ≠ some false) (hlast : nexts.getLast? = some last)
    (h : Reconciled host G last m nexts a) (hidle' : a.running = none)
    (hqueue' : a.pending = []) :
    Converged host last a.shared ↔
      m.shared.fetchedFrom = last.subscriptionUrl ∧
        ((∃ next ∈ nexts, m.flags.applied ≠ some (signature next)) ∨
          m.shared.engine = m.shared.subscription.map (newEngine host last)) := by
  obtain ⟨sub, hsub⟩ := Option.isSome_iff_exists.mp (subscribed_runs hrun hidle hstate)
  have huses : Uses sub m.shared.fetchedFrom m.shared := ⟨hsub, rfl⟩
  have hunused : Unused m := unused_runs hrun fun e he => by cases he
  have henabled : last.enabled ≠ some false := hnexts last (List.mem_of_getLast? hlast)
  rw [hsub, Option.map_some]
  obtain ⟨_, hquiet | ⟨hnew, hr | hstuck⟩⟩ :=
    reconciled_phases hunused hidle hqueue huses henabled h hnexts
  · rw [hquiet.shared]
    constructor
    · intro h
      obtain ⟨sub', hbuilt⟩ := h
      obtain rfl : sub = sub' := Option.some.inj (hsub.symm.trans hbuilt.subscription)
      exact ⟨hbuilt.fetchedFrom, Or.inr hbuilt.engine⟩
    · intro h
      obtain ⟨hsource, ⟨next, hn, hne⟩ | hengine⟩ := h
      · exact absurd (hquiet.same next hn) hne
      · exact ⟨sub, ⟨hsub, hsource⟩, hengine⟩
  · have hrebuilt := hr.sound
    rw [Sound, hidle'] at hrebuilt
    have happlied := reconciled_applied h hnexts last hlast
    constructor
    · intro h
      obtain ⟨sub', hbuilt⟩ := h
      exact ⟨hrebuilt.1.uses.fetchedFrom.symm.trans hbuilt.fetchedFrom, Or.inl hnew⟩
    · intro h
      obtain ⟨hsource, _⟩ := h
      refine ⟨sub, ⟨hrebuilt.1.uses.subscription, ?_⟩, hrebuilt.1.engine hqueue' happlied⟩
      exact hrebuilt.1.uses.fetchedFrom.trans hsource
  · exact absurd hqueue' hstuck.pending

/-- Every subscription that is fetched can be parsed. -/
def fetching (host : Host) : Replies
  | .fetchSubscription _ _, _, r => ∃ parsed, r.bind host.parseSubscription = .ok parsed
  | _, _, _ => True

/-- Answers with which every boot from a URL succeeds. -/
def fetchedReply : (q : Request) → World → q.Response
  | .fetchSubscription url _, _ => .ok url
  | q, w => Listener.cachedReply q w

abbrev fetchingSystem : System interface :=
  (system Listener.cachedHost).answering (fetching Listener.cachedHost)

theorem fetchedReply_allowed (q : Request) (w : World) :
    fetchingSystem.allowed q w (fetchedReply q w) := by
  cases q with
  | fetchSubscription url fetchProxyUrl => exact ⟨trivial, {}, rfl⟩
  | _ => exact ⟨Listener.cachedReply_allowed _ w, trivial⟩

/-- A manager just started from a URL. -/
def fetchedInitial : Machine interface :=
  initial { env := fun _ => none } {} { subscriptionUrl := some "a".toList }

def fetched : Machine interface :=
  (fetchedInitial.receive fetchingSystem .start).drive fetchingSystem fetchedReply 20

/-- It after a reconcile. -/
def refetched (next : Config) : Machine interface :=
  (reconciled Listener.cachedHost (fetching Listener.cachedHost) next next fetched).drive
    fetchingSystem fetchedReply 20

theorem fetched_runs : Runs fetchingSystem fetchedInitial fetched := by
  apply RunsIf.trans
  · exact .single ⟨_, call_step _ _ (c := .start) (by simp) _, trivial⟩
  · apply (drive_runs fetchedReply_allowed (fun _ => true) 20 _ fun _ _ => rfl).mono
    exact fun _ _ _ _ _ => trivial

theorem refetched_reconciled (next : Config) :
    Reconciled Listener.cachedHost (fetching Listener.cachedHost) next fetched [next]
      (refetched next) := by
  apply (Reconciled.reconcile next next .refl (Or.inl rfl)).runs
  apply (drive_runs fetchedReply_allowed (fun _ => true) 20 _ fun _ _ => rfl).mono
  exact fun _ _ _ _ h => h.1

/-- A reconcile with the same URL and more rules. -/
theorem reconcile_converges_same_url :
    Converged Listener.cachedHost
      { subscriptionUrl := some "a".toList, extraRules := some ["MATCH,DIRECT".toList] }
      (refetched { subscriptionUrl := some "a".toList,
                   extraRules := some ["MATCH,DIRECT".toList] }).shared := by
  apply (reconcile_converges fetched_runs rfl rfl rfl (by simp) rfl
    (refetched_reconciled _) rfl rfl).mpr
  exact ⟨rfl, Or.inl ⟨_, List.mem_cons_self, nofun⟩⟩

/-- A reconcile with another URL keeps the old subscription. -/
theorem reconcile_keeps_old_subscription :
    ¬ ∀ (host : Host) (found : Inject.Globals) (disk : Disk) (config last : Config)
      (nexts : List Config) (m a : Machine interface),
      Runs ((system host).answering (fetching host)) (initial found disk config) m →
      m.running = none → m.pending = [] → m.shared.state = .running →
      (∀ next ∈ nexts, next.enabled ≠ some false ∧ next.subscriptionUrl.getD [] ≠ []) →
      nexts.getLast? = some last → Reconciled host (fetching host) last m nexts a →
      a.running = none → a.pending = [] → Converged host last a.shared := by
  intro h
  obtain ⟨sub, hbuilt⟩ := h Listener.cachedHost _ _ _ { subscriptionUrl := some "b".toList } _ _ _
    fetched_runs rfl rfl rfl (by simp) rfl (refetched_reconciled _) rfl rfl
  exact absurd hbuilt.fetchedFrom (by decide)

end DshClashProxy.Core.Reconcile
