import DshClashProxy.Core.RuleOrder

/-!
# Which subscription lines influence routing

The documented order lets only DIRECT and REJECT lines of a subscription through. The
constructor is given the whole subscription and compiles its PROXY lines as well. Two
subscriptions with the same DIRECT/REJECT lines therefore route alike exactly when their
PROXY lines come first for the same hosts among those that these lines or a table keep
from the proxy.
-/
namespace DshClashProxy.Core.Passthrough

open Js Js.Text Core.Rules Core.RuleOrder

variable (cases : CaseMap) (tables : Tables)

/-- The line's target is DIRECT, REJECT or REJECT-DROP. -/
def isPassthrough (line : Yaml) : Bool :=
  match line.text? with
  | some s => lineTarget cases s ∈ ["DIRECT".toList, "REJECT".toList, "REJECT-DROP".toList]
  | none => false

def SamePassthrough (a b : List Yaml) : Prop :=
  a.filter (isPassthrough cases) = b.filter (isPassthrough cases)

instance (a b : List Yaml) : Decidable (SamePassthrough cases a b) :=
  inferInstanceAs (Decidable (_ = _))

/-- The rules an engine takes from a subscription. -/
def subscriptionRules (excludeRules : List Text) (subscription : List Yaml) : List Rule :=
  compiled cases (keptLines excludeRules subscription)

/-- Those of them that come from its DIRECT and REJECT lines. -/
def passthroughRules (excludeRules : List Text) (subscription : List Yaml) : List Rule :=
  subscriptionRules cases excludeRules (subscription.filter (isPassthrough cases))

/-- Two subscriptions that share their DIRECT and REJECT lines route every host alike, and
a host that only the embedded table speaks about is direct. -/
structure IgnoresOtherLines (extraRules excludeRules : List Text) (a b : List Yaml) : Prop where
  same : ∀ host,
    (RuleEngine.new cases extraRules excludeRules a).decide cases tables host =
      (RuleEngine.new cases extraRules excludeRules b).decide cases tables host
  direct : ∀ host,
    firstHit cases (compiled cases extraRules) (classify cases host) = none →
    firstHit cases (passthroughRules cases excludeRules a) (classify cases host) = none →
    covered tables (classify cases host) = true →
    (RuleEngine.new cases extraRules excludeRules a).decide cases tables host = .direct

/-- The first subscription rule that hits the subject is a PROXY line. -/
def ProxyFirst (excludeRules : List Text) (subscription : List Yaml) (subject : Subject) : Prop :=
  ∃ r ∈ firstHit cases (subscriptionRules cases excludeRules subscription) subject,
    r.action = .proxy

/-- PROXY lines come first for the same hosts where a DIRECT or REJECT line hits, and for
no host that only the table covers. Hosts an extra rule hits are exempt. -/
def ProxyLinesHarmless (extraRules excludeRules : List Text) (a b : List Yaml) : Prop :=
  ∀ host, firstHit cases (compiled cases extraRules) (classify cases host) = none →
    (firstHit cases (passthroughRules cases excludeRules a) (classify cases host) ≠ none →
      (ProxyFirst cases excludeRules a (classify cases host) ↔
        ProxyFirst cases excludeRules b (classify cases host))) ∧
    (firstHit cases (passthroughRules cases excludeRules a) (classify cases host) = none →
      covered tables (classify cases host) = true →
      ¬ ProxyFirst cases excludeRules a (classify cases host) ∧
        ¬ ProxyFirst cases excludeRules b (classify cases host))

variable {cases tables}

/-! ## Targets and actions -/

theorem target_of_compile {line : Text} {r : Rule} (h : compileRule cases line = some r) :
    targetAction (lineTarget cases line) = some r.action := by
  obtain ⟨_, hb⟩ := Option.ite_none_left_eq_some.mp h
  obtain ⟨action, ht, h⟩ := Option.bind_eq_some_iff.mp hb
  rw [ht]
  -- one case for each type of rule
  dsimp only at h
  split at h
  · cases h; rfl
  split at h
  · cases h; rfl
  split at h
  · cases h; rfl
  split at h
  · obtain ⟨base, _, hb⟩ := Option.bind_eq_some_iff.mp h
    obtain ⟨bits, _, rfl⟩ := Option.map_eq_some_iff.mp hb
    rfl
  split at h
  · obtain ⟨groups, _, hb⟩ := Option.bind_eq_some_iff.mp h
    obtain ⟨bits, _, rfl⟩ := Option.map_eq_some_iff.mp hb
    rfl
  split at h
  · cases h; rfl
  · cases h

/-- A compiled line passes through exactly when its action is not to proxy. -/
theorem isPassthrough_of_compile {s : Text} {r : Rule} (h : compileRule cases s = some r) :
    isPassthrough cases (.str s) = true ↔ r.action ≠ .proxy := by
  have ht := target_of_compile h
  simp only [isPassthrough, Yaml.text?, List.mem_cons, List.not_mem_nil, or_false,
    decide_eq_true_eq]
  unfold targetAction at ht
  split_ifs at ht with h1 h2 h3 h4
  · simp only [Option.some.injEq] at ht; simp [h1, ← ht]
  · simp only [Option.some.injEq] at ht
    rw [h2, ← ht]
    simp
  · simp only [Option.some.injEq] at ht; simp [h3, ← ht]
  · simp only [Option.some.injEq] at ht; simp [h4, ← ht]

/-- Dropping the PROXY rules of a subscription is dropping its other lines. -/
theorem passthroughRules_eq (excludeRules : List Text) (subscription : List Yaml) :
    passthroughRules cases excludeRules subscription =
      (subscriptionRules cases excludeRules subscription).filter (·.action ≠ .proxy) := by
  unfold passthroughRules subscriptionRules compiled keptLines
  induction subscription with
  | nil => rfl
  | cons line rest ih =>
      cases line with
      | other => simpa [List.filter_cons, List.filterMap_cons, isPassthrough, Yaml.text?] using ih
      | str s =>
          by_cases hx : excludeRules.any (includes s) = true
          · by_cases hp : isPassthrough cases (.str s) = true <;>
              simpa [List.filter_cons, List.filterMap_cons, Yaml.text?, hx, hp] using ih
          · cases hc : compileRule cases s with
            | none =>
                by_cases hp : isPassthrough cases (.str s) = true <;>
                  simpa [List.filter_cons, List.filterMap_cons, Yaml.text?, hx, hp, hc] using ih
            | some r =>
                have hr := isPassthrough_of_compile hc
                by_cases hp : isPassthrough cases (.str s) = true
                · have ha := hr.mp hp
                  simpa [List.filter_cons, List.filterMap_cons, Yaml.text?, hx, hp, hc, ha] using ih
                · have ha : r.action = .proxy := not_not.mp (mt hr.mpr hp)
                  simpa [List.filter_cons, List.filterMap_cons, Yaml.text?, hx, hp, hc, ha] using ih

theorem passthroughRules_congr {a b : List Yaml} (h : SamePassthrough cases a b)
    (excludeRules : List Text) :
    passthroughRules cases excludeRules a = passthroughRules cases excludeRules b := by
  unfold passthroughRules
  rw [h]

/-! ## One subscription against its own DIRECT and REJECT lines -/

theorem outcome_of_proxyFirst {excludeRules : List Text} {subscription : List Yaml}
    {subject : Subject} (h : ProxyFirst cases excludeRules subscription subject) :
    outcome cases tables (subscriptionRules cases excludeRules subscription) subject = .proxy := by
  obtain ⟨r, hr, ha⟩ := h
  simp [outcome, Option.mem_def.mp hr, ha]

/-- Unless a PROXY line comes first, a subscription decides as its DIRECT and REJECT lines
alone. -/
theorem outcome_passthrough {excludeRules : List Text} {subscription : List Yaml}
    {subject : Subject} (h : ¬ ProxyFirst cases excludeRules subscription subject) :
    outcome cases tables (subscriptionRules cases excludeRules subscription) subject =
      outcome cases tables (passthroughRules cases excludeRules subscription) subject := by
  rw [passthroughRules_eq]
  unfold ProxyFirst at h
  unfold outcome
  generalize subscriptionRules cases excludeRules subscription = rules at h ⊢
  have hf : firstHit cases (rules.filter (·.action ≠ .proxy)) subject =
      firstHit cases rules subject := by
    unfold firstHit at h ⊢
    induction rules with
    | nil => rfl
    | cons r rest ih =>
        by_cases hh : hits cases r subject = true
        · have ha : r.action ≠ .proxy := fun ha => h ⟨r, by simp [hh], ha⟩
          simp [ha, hh]
        · have hh : hits cases r subject = false := by simpa using hh
          simp only [List.find?_cons, hh] at h ⊢
          by_cases ha : r.action = .proxy
          · simpa [List.filter_cons, ha] using ih h
          · simpa [List.filter_cons, ha, hh] using ih h
  rw [hf]

theorem passthrough_action {excludeRules : List Text} {subscription : List Yaml}
    {subject : Subject} {r : Rule}
    (h : firstHit cases (passthroughRules cases excludeRules subscription) subject = some r) :
    r.action ≠ .proxy := by
  rw [passthroughRules_eq] at h
  have hm := List.mem_of_find?_eq_some h
  simpa using (List.mem_filter.mp hm).2

/-! ## Two subscriptions -/

/-- Where a DIRECT or REJECT line hits, only a PROXY line in front of it yields proxy. -/
theorem outcome_proxy_iff (tables : Tables) {excludeRules : List Text} {subscription : List Yaml}
    {subject : Subject} {r : Rule}
    (h : firstHit cases (passthroughRules cases excludeRules subscription) subject = some r) :
    outcome cases tables (subscriptionRules cases excludeRules subscription) subject = .proxy ↔
      ProxyFirst cases excludeRules subscription subject := by
  constructor
  · intro ho
    by_contra hn
    rw [outcome_passthrough hn, outcome, h] at ho
    exact passthrough_action h ho
  · exact outcome_of_proxyFirst

theorem outcome_direct_iff {excludeRules : List Text} {subscription : List Yaml}
    {subject : Subject} (hc : covered tables subject = true)
    (h : firstHit cases (passthroughRules cases excludeRules subscription) subject = none) :
    outcome cases tables (subscriptionRules cases excludeRules subscription) subject = .direct ↔
      ¬ ProxyFirst cases excludeRules subscription subject := by
  constructor
  · intro ho hp
    rw [outcome_of_proxyFirst hp] at ho
    cases ho
  · intro hn
    rw [outcome_passthrough hn, outcome, h]
    simp [fallback, hc]

/-- With no table behind it, every subscription rule that can hit says proxy. -/
theorem outcome_uncovered {excludeRules : List Text} {subscription : List Yaml}
    {subject : Subject} (hc : covered tables subject = false)
    (h : firstHit cases (passthroughRules cases excludeRules subscription) subject = none) :
    outcome cases tables (subscriptionRules cases excludeRules subscription) subject =
      .proxy := by
  by_cases hf : ProxyFirst cases excludeRules subscription subject
  · exact outcome_of_proxyFirst hf
  · rw [outcome_passthrough hf, outcome, h]
    simp [fallback, hc]

/-- Two subscriptions whose PROXY lines come first for the same subjects decide alike. -/
theorem outcome_congr {excludeRules : List Text} {a b : List Yaml} {subject : Subject}
    (hpt : passthroughRules cases excludeRules a = passthroughRules cases excludeRules b)
    (hf : ProxyFirst cases excludeRules a subject ↔ ProxyFirst cases excludeRules b subject) :
    outcome cases tables (subscriptionRules cases excludeRules a) subject =
      outcome cases tables (subscriptionRules cases excludeRules b) subject := by
  by_cases ha : ProxyFirst cases excludeRules a subject
  · rw [outcome_of_proxyFirst ha, outcome_of_proxyFirst (hf.mp ha)]
  · rw [outcome_passthrough ha, outcome_passthrough (fun hb => ha (hf.mpr hb)), hpt]

theorem decide_of_no_extra {extraRules excludeRules : List Text} {subscription : List Yaml}
    {host : Text} (h : firstHit cases (compiled cases extraRules) (classify cases host) = none) :
    (RuleEngine.new cases extraRules excludeRules subscription).decide cases tables host =
      outcome cases tables (subscriptionRules cases excludeRules subscription)
        (classify cases host) := by
  rw [decide_new, outcome_append, h]
  rfl

/-- Harmless PROXY lines leave every host where it was. -/
theorem decide_of_harmless {extraRules excludeRules : List Text} {a b : List Yaml}
    (hab : SamePassthrough cases a b)
    (h : ProxyLinesHarmless cases tables extraRules excludeRules a b) (host : Text) :
    (RuleEngine.new cases extraRules excludeRules a).decide cases tables host =
      (RuleEngine.new cases extraRules excludeRules b).decide cases tables host := by
  have hpt := passthroughRules_congr hab excludeRules
  cases hx : firstHit cases (compiled cases extraRules) (classify cases host) with
  | some r => rw [decide_new, decide_new, outcome_append, outcome_append, hx]
  | none =>
      obtain ⟨hsome, hnone⟩ := h host hx
      rw [decide_of_no_extra hx, decide_of_no_extra hx]
      cases hp : firstHit cases (passthroughRules cases excludeRules a) (classify cases host) with
      | some r => exact outcome_congr hpt (hsome (by simp [hp]))
      | none =>
          by_cases hc : covered tables (classify cases host) = true
          · obtain ⟨hna, hnb⟩ := hnone hp hc
            exact outcome_congr hpt (iff_of_false hna hnb)
          · have hc : covered tables (classify cases host) = false := by simpa using hc
            rw [outcome_uncovered hc hp, outcome_uncovered hc (by rw [← hpt]; exact hp)]

/-- Subscriptions that share their DIRECT and REJECT lines route alike, with hosts of the
table direct, exactly when their PROXY lines are harmless. -/
theorem ignoresOtherLines_iff (extraRules excludeRules : List Text) {a b : List Yaml}
    (hab : SamePassthrough cases a b) :
    IgnoresOtherLines cases tables extraRules excludeRules a b ↔
      ProxyLinesHarmless cases tables extraRules excludeRules a b := by
  have hpt := passthroughRules_congr hab excludeRules
  constructor
  · intro h host hx
    have hsame := h.same host
    rw [decide_of_no_extra hx, decide_of_no_extra hx] at hsame
    refine ⟨fun hp => ?_, fun hp hc => ?_⟩
    · obtain ⟨r, hr⟩ := Option.ne_none_iff_exists'.mp hp
      rw [← outcome_proxy_iff tables hr, ← outcome_proxy_iff tables (by rw [← hpt]; exact hr),
        hsame]
    · have hd := h.direct host hx hp hc
      rw [decide_of_no_extra hx] at hd
      exact ⟨(outcome_direct_iff hc hp).mp hd,
        (outcome_direct_iff hc (by rw [← hpt]; exact hp)).mp (hsame ▸ hd)⟩
  · intro h
    refine ⟨decide_of_harmless hab h, fun host hx hp hc => ?_⟩
    rw [decide_of_no_extra hx]
    exact (outcome_direct_iff hc hp).mpr ((h host hx).2 hp hc).1

theorem ignoresOtherLines_iff_google :
    let a := [Yaml.str "DOMAIN-SUFFIX,cn,DIRECT".toList,
      Yaml.str "DOMAIN-SUFFIX,google.com,PROXY".toList]
    let b := [Yaml.str "DOMAIN-SUFFIX,cn,DIRECT".toList]
    SamePassthrough CaseMap.ascii a b ∧
      (IgnoresOtherLines CaseMap.ascii {} [] [] a b ↔
        ProxyLinesHarmless CaseMap.ascii {} [] [] a b) :=
  ⟨by decide, ignoresOtherLines_iff [] [] (by decide)⟩

/-- A trailing `MATCH,PROXY` takes the domestic hosts from the table. -/
theorem match_proxy_overrides_table :
    ¬ ∀ (tables : Tables) (extraRules excludeRules : List Text) (a b : List Yaml),
      SamePassthrough CaseMap.ascii a b →
      IgnoresOtherLines CaseMap.ascii tables extraRules excludeRules a b := by
  intro h
  have hs := (h {} [] [] [.str "MATCH,PROXY".toList] [] (by decide)).same
    "www.example.cn".toList
  revert hs
  decide +kernel

end DshClashProxy.Core.Passthrough
