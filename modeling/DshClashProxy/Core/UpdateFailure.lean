import DshClashProxy.Core.Manager

/-!
# A subscription update that fails

`updateSubscription` writes what it has fetched before it parses it. Where the body cannot be
parsed the update is rejected, the manager goes on with the subscription it had, and the files
hold the body that a later start fails on.
-/
namespace DshClashProxy.Core.UpdateFailure

open Js Js.Text Manager
open Lib.Async

/-- What the steps of a load from the URL come to. A write that fails has a message, and has left
something in its file. -/
structure Outcomes where
  fetched : Except Text Text
  made : Except Text Unit := .ok ()
  cacheWritten : Except (Text × Option Text) Unit := .ok ()
  metaWritten : Except (Text × Option Meta) Unit := .ok ()

/-- The reply that a request gets. -/
def Outcomes.Gives (o : Outcomes) : (q : Request) → q.Response → Prop
  | .fetchSubscription _ _, r => r = o.fetched
  | .mkdir, r => r = o.made
  | .writeCache _, r => r = o.cacheWritten.mapError Prod.fst
  | .writeMeta _ _, r => r = o.metaWritten.mapError Prod.fst
  | _, _ => True

/-- What a request does, a write that fails included. -/
def Outcomes.effect (o : Outcomes) : (q : Request) → q.Response → World → World
  | .writeCache raw, _, w =>
      { w with disk := { w.disk with
        subscription := match o.cacheWritten with
          | .ok () => some raw
          | .error (_, left) => left } }
  | .writeMeta time url, _, w =>
      { w with disk := { w.disk with
        subscriptionMeta := match o.metaWritten with
          | .ok () => some ⟨some time, some url⟩
          | .error (_, left) => left } }
  | q, r, w => Manager.effect q r w

def Outcomes.answers (o : Outcomes) : Answers interface where
  allowed q w r := Manager.allowed q w r ∧ o.Gives q r
  effect := o.effect

/-- The clock and the switch may change, the section stays. -/
def configured (config : Config) : Contract interface :=
  ⟨fun flags => flags.config = config, fun _ _ => True⟩

/-- The files, the subscription in use, the listening servers and the process. -/
structure Unchanged (v w : World) : Prop where
  cache : w.disk.subscription = v.disk.subscription
  cacheMeta : w.disk.subscriptionMeta = v.disk.subscriptionMeta
  subscription : w.subscription = v.subscription
  server : w.server = v.server
  listening : w.listening = v.listening
  globals : w.globals = v.globals

theorem unchanged_refl (w : World) : Unchanged w w := ⟨rfl, rfl, rfl, rfl, rfl, rfl⟩

variable (host : Host)

/-- The runs of an operation that ends as `Q` says. -/
abbrev Ends (o : Outcomes) (config : Config) {α : Type} (p : Program α)
    (Q : Except Text α → World → Prop) (w : World) : Prop :=
  wp o.answers (configured config) p Q w

/-- An update that is rejected changes nothing. -/
def Harmless (o : Outcomes) (config : Config) (w : World) : Prop :=
  Ends o config (updateSubscription host)
    (fun r w' => ∀ e, r = .error e → Unchanged w w') w

/-- The update fails before it writes, or not at all, or with both files as they were. -/
def Spared (o : Outcomes) (w : World) : Prop :=
  match o.fetched, o.made, o.cacheWritten, o.metaWritten with
  | .error _, _, _, _ => True
  | .ok _, .error _, _, _ => True
  | .ok _, .ok (), .error (_, left), _ => left = w.disk.subscription
  | .ok raw, .ok (), .ok (), .error (_, left) =>
      some raw = w.disk.subscription ∧ left = w.disk.subscriptionMeta
  | .ok raw, .ok (), .ok (), .ok () => ∃ parsed, host.parseSubscription raw = .ok parsed

variable {host} {o : Outcomes} {config : Config} {w : World}

/-! ## The requests of a load -/

/-- A request to which the outcomes give the reply. -/
theorem ends_request {q : Request} {r : q.Response} {Q : Except Text q.Response → World → Prop}
    (h : ∀ s, o.answers.allowed q w s ↔ s = r) :
    Ends o config (request q) Q w ↔ Q (.ok r) (o.effect q r w) :=
  ⟨fun hq => hq trivial r ((h r).mpr rfl), fun hq _ s hs => (h s).mp hs ▸ hq⟩

section Requests
variable {α β : Type} {Q : Except Text α → World → Prop}

/-- A reply whose failure is rethrown. -/
def Rethrown (o : Outcomes) (config : Config) (f : β → Program α)
    (Q : Except Text α → World → Prop) : Except Text β → World → Prop
  | .ok b, w => Ends o config (f b) Q w
  | .error e, w => Q (.error e) w

theorem ends_rethrow {p : Program (Except Text β)} {reply : Except Text β} {w' : World}
    {f : β → Program α} (hp : ∀ Q, Ends o config p Q w ↔ Q (.ok reply) w') :
    Ends o config (p >>= fun r => Prog.ofExcept r >>= f) Q w ↔
      Rethrown o config f Q reply w' := by
  rw [Ends, wp_bind]
  refine (hp _).trans ?_
  cases reply <;> exact Iff.rfl

theorem ends_fetch {url fetchProxyUrl : Text} {f : Text → Program α} :
    Ends o config (request (.fetchSubscription url fetchProxyUrl) >>= fun r =>
      Prog.ofExcept r >>= f) Q w ↔ Rethrown o config f Q o.fetched w := by
  refine ends_rethrow fun _ =>
    @ends_request o config w (.fetchSubscription url fetchProxyUrl) o.fetched _ fun _ => ?_
  exact ⟨fun h => h.2, fun h => ⟨trivial, h⟩⟩

theorem ends_mkdir {f : Unit → Program α} :
    Ends o config (request .mkdir >>= fun r => Prog.ofExcept r >>= f) Q w ↔
      Rethrown o config f Q o.made w := by
  refine ends_rethrow fun _ => @ends_request o config w .mkdir o.made _ fun _ => ?_
  exact ⟨fun h => h.2, fun h => ⟨trivial, h⟩⟩

theorem ends_writeCache {raw : Text} {f : Unit → Program α} :
    Ends o config (request (.writeCache raw) >>= fun r => Prog.ofExcept r >>= f) Q w ↔
      Rethrown o config f Q (o.cacheWritten.mapError Prod.fst)
        (o.effect (.writeCache raw) (o.cacheWritten.mapError Prod.fst) w) := by
  refine ends_rethrow fun _ =>
    @ends_request o config w (.writeCache raw) (o.cacheWritten.mapError Prod.fst) _ fun _ => ?_
  exact ⟨fun h => h.2, fun h => ⟨trivial, h⟩⟩

theorem ends_writeMeta {time : Nat} {url : Text} {f : Unit → Program α} :
    Ends o config (request (.writeMeta time url) >>= fun r => Prog.ofExcept r >>= f) Q w ↔
      Rethrown o config f Q (o.metaWritten.mapError Prod.fst)
        (o.effect (.writeMeta time url) (o.metaWritten.mapError Prod.fst) w) := by
  refine ends_rethrow fun _ =>
    @ends_request o config w (.writeMeta time url) (o.metaWritten.mapError Prod.fst) _ fun _ => ?_
  exact ⟨fun h => h.2, fun h => ⟨trivial, h⟩⟩

theorem ends_flags {f : Flags → Program α} :
    Ends o config (Prog.flags >>= f) Q w ↔
      ∀ flags : Flags, flags.config = config → Ends o config (f flags) Q w := by
  rw [Ends, wp_bind]
  exact Iff.rfl

theorem ends_ofExcept {x : Except Text β} {f : β → Program α} :
    Ends o config (Prog.ofExcept x >>= f) Q w ↔ Rethrown o config f Q x w := by
  rw [Ends, wp_bind, wp_ofExcept]
  cases x <;> exact Iff.rfl

end Requests

/-! ## Loading -/

/-- What a rejected load leaves of the world. -/
abbrev OnlyUnchanged (v : World) (r : Except Text Unit) (w : World) : Prop :=
  ∀ e, r = .error e → Unchanged v w

theorem onlyUnchanged_error {v : World} {e : Text} :
    OnlyUnchanged v (.error e) w ↔ Unchanged v w :=
  ⟨fun h => h e rfl, fun h _ _ => h⟩

/-- A load from the URL that is rejected leaves everything as it was exactly when it is spared. -/
theorem ends_loadFromUrl {url : Text} :
    Ends o config (loadFromUrl host config url) (OnlyUnchanged w) w ↔ Spared host o w := by
  rw [loadFromUrl, ends_fetch, Spared]
  cases hf : o.fetched with
  | error e => exact iff_of_true (onlyUnchanged_error.mpr (unchanged_refl w)) trivial
  | ok raw =>
    rw [Rethrown, ends_mkdir]
    cases hm : o.made with
    | error e => exact iff_of_true (onlyUnchanged_error.mpr (unchanged_refl w)) trivial
    | ok u =>
      rw [Rethrown, ends_writeCache]
      cases hc : o.cacheWritten with
      | error e =>
        rw [Outcomes.effect, hc]
        refine onlyUnchanged_error.trans ⟨fun h => h.cache, fun h => ?_⟩
        exact ⟨h, rfl, rfl, rfl, rfl, rfl⟩
      | ok u =>
        rw [Except.mapError, Rethrown, ends_flags]
        refine (forall_congr' fun _ => imp_congr_right fun _ => ends_writeMeta).trans ?_
        rw [Outcomes.effect, hc]
        cases ht : o.metaWritten with
        | error e =>
          simp only [Outcomes.effect, ht]
          refine ⟨fun h => ?_, fun ⟨hraw, hleft⟩ flags _ => ?_⟩
          · have hu := onlyUnchanged_error.mp (h { config := config } rfl)
            exact ⟨hu.cache, hu.cacheMeta⟩
          · exact onlyUnchanged_error.mpr ⟨hraw, hleft, rfl, rfl, rfl, rfl⟩
        | ok u =>
          -- From here only the parser can fail, and the meta file has the time of this load.
          simp only [Outcomes.effect, ht]
          cases hp : host.parseSubscription raw with
          | error e =>
            refine iff_of_false (fun h => ?_) nofun
            have hmeta : ∀ now, some ⟨some now, some url⟩ = w.disk.subscriptionMeta := by
              intro now
              have hend := ends_ofExcept.mp
                (ends_flags.mp (h { config := config, now := now } rfl) { config := config } rfl)
              exact (onlyUnchanged_error.mp hend).cacheMeta
            have hclash := (hmeta 0).trans (hmeta 1).symm
            cases hclash
          | ok parsed =>
            refine iff_of_true (fun flags _ => ?_) ⟨parsed, rfl⟩
            refine ends_flags.mpr fun flags' _ => ends_ofExcept.mpr ?_
            exact fun e he => nomatch he

/-- A load from the cache is rejected before it changes anything. -/
theorem ends_loadFromCache :
    Ends o config (loadFromCache host) (OnlyUnchanged w) w := by
  intro _ r _
  change Ends o config (if _ then _ else _) _ w
  split
  · exact fun e he => nomatch he
  · intro _ time _
    refine ends_ofExcept.mpr ?_
    cases host.parseSubscription (r.toOption.getD []) with
    | error e => exact onlyUnchanged_error.mpr (unchanged_refl w)
    | ok parsed => exact fun e he => nomatch he

/-- The program does not fail. -/
abbrev Calm (o : Outcomes) (config : Config) {α : Type} (p : Program α) : Prop :=
  Triple o.answers (configured config) (fun _ => True) p (fun _ _ => True) (fun _ _ => False)

theorem calm_modify (f : World → World) : Calm o config (Prog.modify f) :=
  triple_modify fun _ h => h

theorem calm_settle : Calm o config (request .settle) := triple_request fun _ _ _ _ _ => trivial

theorem calm_seq {α β : Type} {p : Program β} {f : β → Program α} (hp : Calm o config p)
    (hf : ∀ b, Calm o config (f b)) : Calm o config (p >>= f) := Triple.bind hp hf

theorem calm_awaitUndoDispatcher : Calm o config awaitUndoDispatcher :=
  calm_seq (calm_modify _) fun _ => calm_seq calm_settle fun _ => calm_modify _

theorem calm_awaitUndoEnv : Calm o config awaitUndoEnv :=
  calm_seq (calm_modify _) fun _ => calm_seq calm_settle fun _ => calm_modify _

theorem calm_bootFailed (error : Text) : Calm o config (bootFailed error) :=
  calm_seq (calm_modify _) fun _ => calm_seq (calm_modify _) fun _ =>
    calm_seq calm_awaitUndoDispatcher fun _ => calm_awaitUndoEnv

/-- A boot that fails is reported, not thrown. -/
theorem calm_startCore : Calm o config (startCore host config) :=
  calm_seq (calm_modify _) fun _ => calm_seq calm_awaitUndoDispatcher fun _ =>
    calm_seq calm_awaitUndoEnv fun _ =>
      Triple.tryCatch triple_true fun e => (calm_bootFailed e).mono (fun _ _ => trivial)
        (fun _ _ h => h) fun _ _ h => h

theorem ends_loadSubscription :
    Ends o config (loadSubscription host config true) (OnlyUnchanged w) w ↔
      subscriptionUrl host config w = [] ∨ Spared host o w := by
  change Ends o config (if (subscriptionUrl host config w).isEmpty = true then _ else _) _ w ↔ _
  by_cases hurl : (subscriptionUrl host config w).isEmpty = true
  · rw [if_pos hurl]
    exact iff_of_true ends_loadFromCache (.inl (List.isEmpty_iff.mp hurl))
  · rw [if_neg hurl, ends_loadFromUrl]
    exact ⟨.inr, fun h => h.resolve_left fun hnil => hurl (List.isEmpty_iff.mpr hnil)⟩

/-- What a program that does not fail is followed by does not matter to its rejection. -/
theorem ends_seq_calm {p q : Program Unit} {v : World} (hq : Calm o config q) :
    Ends o config (p >>= fun _ => q) (OnlyUnchanged v) w ↔
      Ends o config p (OnlyUnchanged v) w := by
  rw [Ends, wp_bind]
  refine ⟨fun h => wp_mono h fun r t ht => ?_, fun h => wp_mono h fun r t ht => ?_⟩
  · cases r with
    | ok u => exact fun e he => nomatch he
    | error e => exact ht
  · cases r with
    | error e => exact ht
    | ok u =>
        refine wp_mono (hq t trivial) fun r t' hr => ?_
        cases r with
        | ok u => exact fun e he => nomatch he
        | error e => exact hr.elim

/-- A rejected update changes nothing exactly when it does not load, loads from the cache, or its
load is spared. -/
theorem rejected_update_iff (host : Host) (o : Outcomes) (config : Config) (w : World) :
    Harmless host o config w ↔
      config.enabled = some false ∨ subscriptionUrl host config w = [] ∨ Spared host o w := by
  rw [Harmless, updateSubscription, ends_flags]
  by_cases henabled : config.enabled = some false
  · refine iff_of_true (fun flags hflags => ?_) (.inl henabled)
    rw [hflags, if_pos henabled]
    exact fun e he => nomatch he
  · have hload : ∀ flags : Flags, flags.config = config →
        (Ends o config (if flags.config.enabled = some false then pure ()
          else loadSubscription host flags.config true >>= fun _ => startCore host flags.config)
          (OnlyUnchanged w) w ↔ subscriptionUrl host config w = [] ∨ Spared host o w) := by
      intro flags hflags
      rw [hflags, if_neg henabled, ends_seq_calm calm_startCore, ends_loadSubscription]
    refine ⟨fun h => .inr ((hload { config := config } rfl).mp (h _ rfl)), fun h flags hf => ?_⟩
    exact (hload flags hf).mpr (h.resolve_left henabled)

/-! ## A body that is not a subscription -/

/-- The body `proxies: []` is a subscription, all others are not. -/
def strict : Host where
  cases := CaseMap.ascii
  parseSubscription raw :=
    if raw = "proxies: []".toList then .ok {}
    else .error "subscription body is neither YAML nor base64-wrapped YAML".toList
  subscriptionUrlEnv := "CLASH_SUBSCRIPTION_URL".toList

def subscribed : Config := { subscriptionUrl := some "http://a/".toList }

/-- A manager that runs on a subscription fetched before. -/
def running : World where
  state := .running
  subscription := some ⟨"proxies: []".toList, some 1, {}⟩
  server := some 0
  port := 7890
  servers := 1
  listening := [0]
  ports := fun id => if id = 0 then some 7890 else none
  disk :=
    { subscription := some "proxies: []".toList
      subscriptionMeta := some ⟨some 1, some "http://a/".toList⟩ }
  globals := { env := fun _ => none }

theorem bad_body_written : running.state = .running ∧ running.subscription.isSome = true ∧
    ¬ Harmless strict { fetched := .ok "oops".toList } subscribed running := by
  refine ⟨rfl, rfl, fun h => ?_⟩
  rcases (rejected_update_iff _ _ _ _).mp h with henabled | hurl | ⟨parsed, hparsed⟩
  · cases henabled
  · cases hurl
  · cases hparsed

end DshClashProxy.Core.UpdateFailure
