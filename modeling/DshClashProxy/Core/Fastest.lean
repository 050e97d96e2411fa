import DshClashProxy.Core.AutoNode

/-!
# The fastest node

With `url-test` and no node selected by hand, the loop of `#resolveNode` keeps the name of the
smallest latency, the first of them where several are equal. It starts from Infinity, so a
latency counts when it is a number below that.
-/
namespace DshClashProxy.Core.Fastest

open Js Js.Text AutoNode

/-- The name is the first of these with the smallest latency among those that count. -/
def Leads (counts : Number → Prop) (latencies : Text → Option Number) (names : List Text)
    (name : Text) (delay : Number) : Prop :=
  ∃ before after, names = before ++ name :: after ∧ latencies name = some delay ∧ counts delay ∧
    (∀ n ∈ before, ∀ d, latencies n = some d → counts d → delay.lt d = true) ∧
    ∀ n ∈ after, ∀ d, latencies n = some d → counts d → d.lt delay = false

/-- The choice with `url-test`, where nothing is selected that the map has. -/
structure PicksFastest (counts : Number → Prop) (cases : CaseMap) (proxies : List Node)
    (selected : Option Text) (latencies : Text → Option Number) : Prop where
  fastest : (∃ e ∈ supportedEntries cases proxies, ∃ d, latencies e.1 = some d ∧ counts d) →
    ∃ e ∈ supportedEntries cases proxies, ∃ delay,
      resolveNode cases proxies selected "url-test".toList latencies = some e.2 ∧
        Leads counts latencies ((supportedEntries cases proxies).map Prod.fst) e.1 delay
  first : (∀ e ∈ supportedEntries cases proxies, ∀ d, latencies e.1 = some d → ¬ counts d) →
    ∀ e ∈ (supportedEntries cases proxies).head?,
      resolveNode cases proxies selected "url-test".toList latencies = some e.2
  supported : ∀ node, resolveNode cases proxies selected "url-test".toList latencies = some node →
    isSupported cases node = false → supportedEntries cases proxies = []

/-- A latency that can win. -/
def Measured (d : Number) : Prop := d.lt (.infinity false) = true

/-! ## The loop -/

/-- What the loop has found among the names it has gone through. -/
def Found (latencies : Text → Option Number) (names : List Text) : Option Text × Number → Prop
  | (some name, delay) => Leads Measured latencies names name delay
  | (none, delay) => delay = .infinity false ∧
      ∀ n ∈ names, ∀ d, latencies n = some d → ¬ Measured d

theorem measured_of_lt {a b : Number} (h : a.lt b = true) : Measured a :=
  Number.lt_of_lt_of_not_lt h (Number.infinity_not_lt b) rfl

/-- A smaller latency takes the lead. -/
theorem leads_new {latencies : Text → Option Number} {names : List Text} {name n : Text}
    {delay d : Number} (h : Leads Measured latencies names name delay) (hn : latencies n = some d)
    (hlt : d.lt delay = true) : Leads Measured latencies (names ++ [n]) n d := by
  obtain ⟨before, after, rfl, hname, -, hbefore, hafter⟩ := h
  refine ⟨before ++ name :: after, [], rfl, hn, measured_of_lt hlt, fun m hm d' hd' hc => ?_,
    fun m hm => absurd hm List.not_mem_nil⟩
  have hnan : d'.isNaN = false := Number.isNaN_of_lt hc
  rcases List.mem_append.mp hm with hm | hm
  · exact Number.lt_of_lt_of_not_lt hlt (Number.lt_asymm (hbefore m hm d' hd' hc)) hnan
  · rcases List.mem_cons.mp hm with rfl | hm
    · rw [hname] at hd'
      exact Option.some.inj hd' ▸ hlt
    · exact Number.lt_of_lt_of_not_lt hlt (hafter m hm d' hd' hc) hnan

/-- A latency that is not smaller leaves the lead. -/
theorem leads_old {latencies : Text → Option Number} {names : List Text} {name n : Text}
    {delay : Number} (h : Leads Measured latencies names name delay)
    (hn : ∀ d, latencies n = some d → d.lt delay = false) :
    Leads Measured latencies (names ++ [n]) name delay := by
  obtain ⟨before, after, rfl, hname, hmeasured, hbefore, hafter⟩ := h
  refine ⟨before, after ++ [n], by simp, hname, hmeasured, hbefore, fun m hm d hd hc => ?_⟩
  rcases List.mem_append.mp hm with hm | hm
  · exact hafter m hm d hd hc
  · rw [List.mem_singleton.mp hm] at hd
    exact hn d hd

/-- One turn of the loop. -/
theorem found_faster {latencies : Text → Option Number} {names : List Text}
    {best : Option Text × Number} (h : Found latencies names best) (n : Text) :
    Found latencies (names ++ [n]) (faster latencies best n) := by
  obtain ⟨_ | name, delay⟩ := best
  · obtain ⟨rfl, hnone⟩ := h
    rcases faster_cases latencies (none, .infinity false) n with ⟨d, hn, hlt, hnew⟩ | ⟨hn, hold⟩
    · rw [hnew]
      exact ⟨names, [], rfl, hn, hlt, fun m hm d' hd' hc => absurd hc (hnone m hm d' hd'),
        fun m hm => absurd hm List.not_mem_nil⟩
    · rw [hold]
      refine ⟨rfl, fun m hm => ?_⟩
      rcases List.mem_append.mp hm with hm | hm
      · exact hnone m hm
      · rw [List.mem_singleton.mp hm]
        exact fun d hd => Bool.eq_false_iff.mp (hn d hd)
  · rcases faster_cases latencies (some name, delay) n with ⟨d, hn, hlt, hnew⟩ | ⟨hn, hold⟩
    · rw [hnew]
      exact leads_new h hn hlt
    · rw [hold]
      exact leads_old h hn

/-- The whole loop. -/
theorem found_foldl (latencies : Text → Option Number) (names : List Text) :
    Found latencies names (names.foldl (faster latencies) (none, .infinity false)) := by
  induction names using List.reverseRecOn with
  | nil => exact ⟨rfl, fun n hn => absurd hn List.not_mem_nil⟩
  | append_singleton names n ih =>
      rw [List.foldl_append]
      exact found_faster ih n

/-- The name that the loop ends with is what it has found. -/
theorem found_fastest (latencies : Text → Option Number) (names : List Text) :
    ∃ delay, Found latencies names (fastest latencies names, delay) :=
  ⟨_, found_foldl latencies names⟩

theorem leads_of_fastest {latencies : Text → Option Number} {names : List Text} {name : Text}
    (h : fastest latencies names = some name) :
    ∃ delay, Leads Measured latencies names name delay := by
  obtain ⟨delay, hfound⟩ := found_fastest latencies names
  rw [h] at hfound
  exact ⟨delay, hfound⟩

theorem not_measured_of_fastest {latencies : Text → Option Number} {names : List Text}
    (h : fastest latencies names = none) :
    ∀ n ∈ names, ∀ d, latencies n = some d → ¬ Measured d := by
  obtain ⟨delay, hfound⟩ := found_fastest latencies names
  rw [h] at hfound
  exact hfound.2

/-! ## The choice -/

section Choice
variable {cases : CaseMap} {proxies : List Node} {selected : Option Text}
  {latencies : Text → Option Number}

/-- The name the loop has found is the one whose node is returned. -/
theorem resolveNode_found (hsel : selected.filter (nodeMap proxies).has = none) {name : Text}
    (h : fastest latencies ((supportedEntries cases proxies).map Prod.fst) = some name) :
    ∃ e ∈ supportedEntries cases proxies, e.1 = name ∧
      resolveNode cases proxies selected "url-test".toList latencies = some e.2 := by
  obtain ⟨e, he, rfl⟩ := List.mem_map.mp ((best_mem h).resolve_right nofun)
  have hauto : automatic "url-test".toList latencies
      ((supportedEntries cases proxies).map Prod.fst) (nodeMap proxies).keys = some e.1 := by
    unfold automatic
    rw [if_pos rfl, h]
  refine ⟨e, he, rfl, ?_⟩
  rw [resolveNode_auto hsel, hauto]
  exact get_supported he

/-- Without one the first supported node is returned. -/
theorem resolveNode_not_found (hsel : selected.filter (nodeMap proxies).has = none)
    (h : fastest latencies ((supportedEntries cases proxies).map Prod.fst) = none)
    {e : Text × Node} (he : e ∈ (supportedEntries cases proxies).head?) :
    resolveNode cases proxies selected "url-test".toList latencies = some e.2 := by
  obtain ⟨rest, hs⟩ := List.head?_eq_some_iff.mp he
  have hauto : automatic "url-test".toList latencies
      ((supportedEntries cases proxies).map Prod.fst) (nodeMap proxies).keys = some e.1 := by
    unfold automatic
    rw [if_pos rfl, h, hs]
    rfl
  rw [resolveNode_auto hsel, hauto]
  exact get_supported (hs ▸ List.mem_cons_self)

/-- Whatever the table maps the names to, `url-test` returns a supported node of the smallest
latency below Infinity, the first of them in the order of the map; the first supported node
where there is none; and an unsupported node only where no node is supported. -/
theorem picksFastest (hsel : selected.filter (nodeMap proxies).has = none) :
    PicksFastest Measured cases proxies selected latencies := by
  constructor
  · intro hmeasured
    obtain ⟨e, he, d, hd, hm⟩ := hmeasured
    cases hname : fastest latencies ((supportedEntries cases proxies).map Prod.fst) with
    | none =>
        exact absurd hm (not_measured_of_fastest hname e.1 (List.mem_map_of_mem he) d hd)
    | some name =>
        obtain ⟨best, hbest, rfl, hpicked⟩ := resolveNode_found hsel hname
        obtain ⟨delay, hleads⟩ := leads_of_fastest hname
        exact ⟨best, hbest, delay, hpicked, hleads⟩
  · intro hnone e he
    apply resolveNode_not_found hsel _ he
    by_contra hne
    obtain ⟨name, hname⟩ := Option.ne_none_iff_exists'.mp hne
    obtain ⟨best, hbest, rfl, -⟩ := resolveNode_found hsel hname
    obtain ⟨delay, -, -, -, hdelay, hm, -⟩ := leads_of_fastest hname
    exact hnone best hbest delay hdelay hm
  · intro node hnode hnot
    by_contra hne
    obtain ⟨first, rest, hs⟩ := List.exists_cons_of_ne_nil hne
    obtain ⟨e, he, hpicked, -⟩ := @resolveNode_supported cases proxies selected
      "url-test".toList latencies hsel first rest hs
    rw [← hs] at he
    rw [hnode] at hpicked
    have htrue : isSupported cases e.2 = true := (List.mem_filter.mp he).2
    rw [← Option.some.inj hpicked, hnot] at htrue
    cases htrue

end Choice

/-! ### Latencies -/

/-- Three nodes, two of them measured alike. -/
def threeNodes : List Node :=
  [plainNode "a".toList "tuic".toList, plainNode "b".toList "trojan".toList,
    plainNode "c".toList "trojan".toList]

theorem three_fastest :
    PicksFastest Measured .ascii threeNodes (some "gone".toList) fun _ => some 5 :=
  picksFastest rfl

/-- A latency of Infinity is a number, but the loop never takes it. -/
theorem infinity_not_picked :
    ¬ ∀ (cases : CaseMap) (proxies : List Node) (selected : Option Text)
      (latencies : Text → Option Number), selected.filter (nodeMap proxies).has = none →
      PicksFastest (fun _ => True) cases proxies selected latencies := by
  intro h
  let latencies : Text → Option Number := fun n =>
    if n = "c".toList then some (.infinity false) else none
  let b : Text × Node := ("b".toList, plainNode "b".toList "trojan".toList)
  let c : Text × Node := ("c".toList, plainNode "c".toList "trojan".toList)
  have hsupported : supportedEntries .ascii threeNodes = [b, c] := rfl
  have hresolved : resolveNode .ascii threeNodes none "url-test".toList latencies = some b.2 := rfl
  obtain ⟨e, he, delay, hpicked, before, after, -, hdelay, -⟩ :=
    (h .ascii threeNodes none latencies rfl).fastest
      ⟨c, hsupported ▸ .tail b List.mem_cons_self, _, rfl, trivial⟩
  rw [hresolved] at hpicked
  rw [hsupported, List.mem_cons, List.mem_singleton] at he
  rcases he with rfl | rfl
  · have hnone : latencies b.1 = none := rfl
    rw [hnone] at hdelay
    cases hdelay
  · have hname : b.2.name = c.2.name := congrArg Node.name (Option.some.inj hpicked)
    exact absurd hname (by decide)

end DshClashProxy.Core.Fastest
