import DshClashProxy.Core.Fastest

/-!
# Whether the automatic choice can be dialled

The choice falls on the fastest supported node, on the first supported one, or on the first of
all. `connectThrough` need not dial it, although it would dial another node of the map.
-/
namespace DshClashProxy.Core.DialableChoice

open Js Js.Text AutoNode Fastest

section
variable (cases : CaseMap) (proxies : List Node) (selected : Option Text) (groupType : Text)
  (latencies : Text → Option Number)

/-- A node that can be dialled is picked, if there is one. -/
def PicksDialable : Prop :=
  (∃ node ∈ nodes proxies, Dialable cases node) →
    ∃ node, resolveNode cases proxies selected groupType latencies = some node ∧
      Dialable cases node

/-- None of the supported nodes has a latency that counts. -/
def Unmeasured : Prop :=
  ∀ e ∈ supportedEntries cases proxies, ∀ d, latencies e.1 = some d → ¬ Measured d

/-- The node that the choice falls on can be dialled. -/
structure CandidateDialable : Prop where
  fastest : groupType = "url-test".toList → ∀ e ∈ supportedEntries cases proxies, ∀ delay,
    Leads Measured latencies ((supportedEntries cases proxies).map Prod.fst) e.1 delay →
      Dialable cases e.2
  first : groupType ≠ "url-test".toList ∨ Unmeasured cases proxies latencies →
    ∀ e ∈ (supportedEntries cases proxies).head?, Dialable cases e.2
  unsupported : supportedEntries cases proxies = [] →
    ∀ node ∈ (nodes proxies).head?, Dialable cases node

end

/-- Only one name leads. -/
theorem leads_unique {counts : Number → Prop} {latencies : Text → Option Number}
    {names : List Text} {n n' : Text} {d d' : Number} (h : Leads counts latencies names n d)
    (h' : Leads counts latencies names n' d') : n = n' := by
  -- of two leaders the one behind would be below the one in front, and not below it
  have hbehind : ∀ {before after before' after' : List Text} {n n' : Text} {d d' : Number}
      {x : Text} {t : List Text}, latencies n = some d → counts d → latencies n' = some d' →
      counts d' → before' = before ++ x :: t → n :: after = x :: t ++ n' :: after' →
      (∀ m ∈ before', ∀ e, latencies m = some e → counts e → d'.lt e = true) →
      (∀ m ∈ after, ∀ e, latencies m = some e → counts e → e.lt d = false) → n = n' := by
    intro before after before' after' n n' d d' x t hn hd hn' hd' hbefore hsplit hlow hhigh
    obtain ⟨rfl, rfl⟩ := List.cons.inj hsplit
    have hlt := hlow n (by rw [hbefore]; simp) d hn hd
    rw [hhigh n' (by simp) d' hn' hd'] at hlt
    cases hlt
  obtain ⟨before, after, rfl, hn, hd, hlow, hhigh⟩ := h
  obtain ⟨before', after', he, hn', hd', hlow', hhigh'⟩ := h'
  rcases List.append_eq_append_iff.mp he with ⟨t, hbefore, hsplit⟩ | ⟨t, hbefore, hsplit⟩
  · cases t with
    | nil => exact (List.cons.inj hsplit).1
    | cons x t => exact hbehind hn hd hn' hd' hbefore hsplit hlow' hhigh
  · cases t with
    | nil => exact (List.cons.inj hsplit).1.symm
    | cons x t => exact (hbehind hn' hd' hn hd hbefore hsplit hlow hhigh').symm

section
variable {cases : CaseMap} {proxies : List Node} {selected : Option Text} {groupType : Text}
  {latencies : Text → Option Number}

/-- Unless a measured node leads in a `url-test` group, the first supported node is picked. -/
theorem resolveNode_first (hsel : selected.filter (nodeMap proxies).has = none)
    (h : groupType ≠ "url-test".toList ∨ Unmeasured cases proxies latencies) {e : Text × Node}
    (he : e ∈ (supportedEntries cases proxies).head?) :
    resolveNode cases proxies selected groupType latencies = some e.2 := by
  by_cases hg : groupType = "url-test".toList
  · rw [hg]
    exact (picksFastest hsel).first (h.resolve_left fun hne => hne hg) e he
  · obtain ⟨rest, hs⟩ := List.head?_eq_some_iff.mp he
    obtain ⟨first, -, hpicked, hfirst⟩ := @resolveNode_supported cases proxies selected groupType
      latencies hsel e rest hs
    rw [hpicked, hfirst hg]

/-- The node that leads is picked. -/
theorem resolveNode_leads (hsel : selected.filter (nodeMap proxies).has = none)
    {e : Text × Node} (he : e ∈ supportedEntries cases proxies) {delay : Number}
    (h : Leads Measured latencies ((supportedEntries cases proxies).map Prod.fst) e.1 delay) :
    resolveNode cases proxies selected "url-test".toList latencies = some e.2 := by
  obtain ⟨-, -, -, hdelay, hm, -, -⟩ := id h
  obtain ⟨best, hbest, d, hpicked, hleads⟩ :=
    (@picksFastest cases proxies selected latencies hsel).fastest ⟨e, he, delay, hdelay, hm⟩
  have hnode := get_supported hbest
  rw [leads_unique hleads h, get_supported he] at hnode
  rw [hpicked, ← hnode]

end

/-- A node that can be dialled is picked, if there is one, exactly when the one that the choice
falls on can be dialled, or there is nothing to dial. -/
theorem automatic_choice_iff (cases : CaseMap) (proxies : List Node) {selected : Option Text}
    (groupType : Text) (latencies : Text → Option Number)
    (hsel : selected.filter (nodeMap proxies).has = none) :
    PicksDialable cases proxies selected groupType latencies ↔
      (∀ node ∈ nodes proxies, ¬ Dialable cases node) ∨
        CandidateDialable cases proxies groupType latencies := by
  constructor
  · intro hpicks
    by_cases hany : ∃ node ∈ nodes proxies, Dialable cases node
    · obtain ⟨node, hnode, hdial⟩ := hpicks hany
      refine .inr ⟨fun hg e he delay hleads => ?_, fun h e he => ?_, fun hs n hn => ?_⟩
      · rw [hg, resolveNode_leads hsel he hleads] at hnode
        exact Option.some.inj hnode ▸ hdial
      · rw [resolveNode_first hsel h he] at hnode
        exact Option.some.inj hnode ▸ hdial
      · rw [resolveNode_unsupported hsel hs, hn] at hnode
        exact Option.some.inj hnode ▸ hdial
    · exact .inl fun node hn hd => hany ⟨node, hn, hd⟩
  · intro hcond hany
    obtain ⟨hfastest, hfirst, hunsupported⟩ := hcond.resolve_left fun hnone => by
      obtain ⟨node, hn, hd⟩ := hany
      exact hnone node hn hd
    cases hs : supportedEntries cases proxies with
    | nil =>
        rw [resolveNode_unsupported hsel hs]
        cases hns : nodes proxies with
        | nil =>
            obtain ⟨node, hn, -⟩ := hany
            exact absurd (hns ▸ hn) List.not_mem_nil
        | cons n rest => exact ⟨n, rfl, hunsupported hs n (by rw [hns]; rfl)⟩
    | cons first rest =>
        have hhead : first ∈ (supportedEntries cases proxies).head? := by rw [hs]; rfl
        by_cases hdefault : groupType ≠ "url-test".toList ∨ Unmeasured cases proxies latencies
        · exact ⟨first.2, resolveNode_first hsel hdefault hhead, hfirst hdefault first hhead⟩
        · rw [not_or, not_not] at hdefault
          obtain ⟨hg, hmeasured⟩ := hdefault
          simp only [Unmeasured, not_forall, not_not] at hmeasured
          obtain ⟨e, he, d, hd, hm⟩ := hmeasured
          obtain ⟨best, hbest, delay, hpicked, hleads⟩ :=
            (@picksFastest cases proxies selected latencies hsel).fastest ⟨e, he, d, hd, hm⟩
          rw [hg]
          exact ⟨best.2, hpicked, hfastest hg best hbest delay hleads⟩

/-- The supported ones of the three nodes can be dialled, whichever is the fastest. -/
theorem three_picks :
    PicksDialable .ascii threeNodes (some "gone".toList) "url-test".toList fun _ => some 5 := by
  have hall : ∀ e ∈ supportedEntries .ascii threeNodes, Dialable .ascii e.2 := by decide
  refine (automatic_choice_iff .ascii threeNodes "url-test".toList (fun _ => some 5) rfl).mpr
    (.inr ⟨fun _ e he _ _ => hall e he, fun _ e he => hall e (List.mem_of_mem_head? he),
      fun hs => ?_⟩)
  cases hs

/-- A node that cannot be dialled, and one of the type `hy2`. -/
def aliasNodes : List Node :=
  [plainNode "a".toList "tuic".toList, plainNode "b".toList "hy2".toList]

/-- The type `hy2` is dialled but not supported, so the node in front of it is picked. -/
theorem alias_not_picked :
    ¬ ∀ (proxies : List Node) (selected : Option Text) (groupType : Text)
      (latencies : Text → Option Number), selected.filter (nodeMap proxies).has = none →
      PicksDialable .ascii proxies selected groupType latencies := by
  intro h
  obtain ⟨node, hnode, hdial⟩ := h aliasNodes none "select".toList (fun _ => none) rfl
    ⟨plainNode "b".toList "hy2".toList, .tail _ List.mem_cons_self, by decide⟩
  have hfirst : resolveNode .ascii aliasNodes none "select".toList (fun _ => none) =
      some (plainNode "a".toList "tuic".toList) := rfl
  rw [hfirst] at hnode
  rw [← Option.some.inj hnode] at hdial
  exact absurd hdial (by decide)

end DshClashProxy.Core.DialableChoice
