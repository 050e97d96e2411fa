import DshClashProxy.Core.Inject
import DshClashProxy.Lib.Distinct

/-!
# The NO_PROXY list

`composeNoProxy` puts the loopback entries in front of the user's list and drops blanks and
repetitions. The value is read back as the list it was made of, so composing it again leaves
it alone. The matcher of the wrapper composes what the environment holds, which has been
composed before.
-/
namespace DshClashProxy.Core.NoProxyList

open Js Js.Text Inject
open Lib.Distinct

/-! ## The matcher -/

/-- `process.env.NO_PROXY`. -/
def ofEnv : Option Text → NoProxy
  | none => .undefined
  | some s => .text s

/-- The hostname predicate that the entries stand for. -/
def matchesNoProxy (cases : CaseMap) (entries : List Text) (hostname : Text) : Bool :=
  if entries.contains ['*'] then true
  else
    let suffixes := entries.filter fun entry => startsWith entry ['.']
    let exact := entries.filter fun entry => !startsWith entry ['.']
    let host := cases.toLower hostname
    host = [] || host = "localhost".toList || !host.contains '.' ||
      host = "127.0.0.1".toList || host = "::1".toList || startsWith host ['['] ||
      exact.contains host ||
      suffixes.any fun suffix => endsWith host suffix || host = suffix.drop 1

/-- Build a hostname predicate from a NO_PROXY list. -/
def buildNoProxyMatcher (cases : CaseMap) (noProxyValue : NoProxy) :
    Except Text (Text → Bool) := do
  let value ← composeNoProxy noProxyValue
  return matchesNoProxy cases
    (((value.splitOn ',').map fun entry => cases.toLower (trim entry)).filter (· ≠ []))

/-! ## The list that a value stands for -/

def loopbackEntries : List Text :=
  ["localhost", "127.0.0.1", "::1", "<local>"].map String.toList

/-- The entries between the commas that are not blank, trimmed. -/
def userEntries (u : Text) : List Text := ((u.splitOn ',').map trim).filter (· ≠ [])

/-- The loopback entries and those of the user. -/
def allEntries (u : Text) : List Text := loopbackEntries ++ userEntries u

/-- The value lists every entry once, where it first occurs, and nothing else. -/
structure Lists (u value : Text) : Prop where
  once : (value.splitOn ',').Nodup
  entries : ∀ entry, entry ∈ value.splitOn ',' ↔ entry ∈ loopbackEntries ∨ entry ∈ userEntries u
  order : (value.splitOn ',').Pairwise fun a b => (allEntries u).idxOf a < (allEntries u).idxOf b

/-- The wrapper that is installed after an injection has the matcher of the user's list. -/
def InjectedMatches (cases : CaseMap) (u : Text) : Prop :=
  ∀ (port : Nat) (env : Env), ∃ injected, injectEnvironment port (.text u) env = .ok injected ∧
    ∀ g : Globals, g.env = injected.1 → g.fetch ≠ .missing →
      ∃ target noProxy matcher,
        (wrapFetch g).1.fetch = .wrapped g.wrappers target noProxy g.fetch ∧
        buildNoProxyMatcher cases (ofEnv noProxy) = .ok matcher ∧
        buildNoProxyMatcher cases (.text u) = .ok matcher

/-- The value of `composeNoProxy`. -/
def composed (u : Text) : Text := [','].intercalate (allEntries u).eraseDups

theorem userEntries_append (a b : Text) :
    userEntries (a ++ ',' :: b) = userEntries a ++ userEntries b := by
  rw [userEntries, List.splitOn_append_cons_self, List.map_append, List.filter_append]
  rfl

theorem userEntries_loopback : userEntries loopbackNoProxy = loopbackEntries := by decide

theorem composeNoProxy_text (u : Text) : composeNoProxy (.text u) = .ok (composed u) := by
  have hjoin : composeNoProxy (.text u) = .ok ([','].intercalate
      (userEntries ([','].intercalate
        (if u.isEmpty then [loopbackNoProxy] else [loopbackNoProxy, u]))).eraseDups) := rfl
  rw [hjoin, composed, allEntries]
  by_cases hu : u = []
  · have hnone : userEntries u = [] := by rw [hu]; rfl
    have hone : [','].intercalate [loopbackNoProxy] = loopbackNoProxy :=
      List.intercalate_singleton
    rw [hnone, List.append_nil, if_pos (by rw [hu]; rfl), hone, userEntries_loopback]
  · have htwo : [','].intercalate [loopbackNoProxy, u] = loopbackNoProxy ++ ',' :: u := by
      rw [List.intercalate_cons_cons, List.intercalate_singleton, List.append_assoc]
      rfl
    rw [if_neg (by simpa using hu), htwo, userEntries_append, userEntries_loopback]

/-- An entry is not blank, has nothing to trim and holds no comma. -/
theorem mem_allEntries {u entry : Text} (h : entry ∈ allEntries u) :
    entry ≠ [] ∧ trim entry = entry ∧ ',' ∉ entry := by
  rcases List.mem_append.mp h with h | h
  · have hall : ∀ e ∈ loopbackEntries, e ≠ [] ∧ trim e = e ∧ ',' ∉ e := by decide
    exact hall entry h
  · obtain ⟨hmap, hne⟩ := List.mem_filter.mp h
    obtain ⟨piece, hpiece, rfl⟩ := List.mem_map.mp hmap
    refine ⟨by simpa using hne, trim_trim piece, fun hc => ?_⟩
    exact not_mem_of_mem_splitOn hpiece (mem_of_mem_trim hc)

/-- The value is read back as the entries it was made of. -/
theorem splitOn_composed (u : Text) : (composed u).splitOn ',' = (allEntries u).eraseDups := by
  refine List.splitOn_intercalate ',' (fun entry he => ?_) fun hnil => ?_
  · exact (mem_allEntries (List.mem_eraseDups.mp he)).2.2
  · have hlocal : "localhost".toList ∈ (allEntries u).eraseDups :=
      List.mem_eraseDups.mpr (List.mem_append_left _ List.mem_cons_self)
    rw [hnil] at hlocal
    exact absurd hlocal List.not_mem_nil

theorem userEntries_composed (u : Text) :
    userEntries (composed u) = (allEntries u).eraseDups := by
  have htrim : (allEntries u).eraseDups.map trim = (allEntries u).eraseDups := by
    refine (List.map_congr_left fun entry he => ?_).trans (List.map_id _)
    exact (mem_allEntries (List.mem_eraseDups.mp he)).2.1
  rw [userEntries, splitOn_composed, htrim, List.filter_eq_self]
  intro entry he
  simpa using (mem_allEntries (List.mem_eraseDups.mp he)).1

theorem composed_composed (u : Text) : composed (composed u) = composed u := by
  rw [composed, allEntries, userEntries_composed, allEntries, eraseDups_append_eraseDups]
  rfl

theorem lists_composed (u : Text) : Lists u (composed u) := by
  constructor
  · rw [splitOn_composed]
    exact nodup_eraseDups _
  · intro entry
    rw [splitOn_composed, List.mem_eraseDups, allEntries, List.mem_append]
  · rw [splitOn_composed]
    exact eraseDups_ordered _

/-- The matcher of a user's list. -/
def matcher (cases : CaseMap) (u : Text) : Text → Bool :=
  matchesNoProxy cases
    ((((composed u).splitOn ',').map fun entry => cases.toLower (trim entry)).filter (· ≠ []))

theorem buildNoProxyMatcher_text (cases : CaseMap) (u : Text) :
    buildNoProxyMatcher cases (.text u) = .ok (matcher cases u) := by
  rw [buildNoProxyMatcher, composeNoProxy_text]
  rfl

/-- With a target in the environment the wrapper takes the place of the fetch found. -/
theorem wrapFetch_installs {g : Globals} {target : Text} (hfetch : g.fetch ≠ .missing)
    (htarget : proxyTarget g.env = some target) (hne : target ≠ []) :
    (wrapFetch g).1.fetch = .wrapped g.wrappers target (g.env "NO_PROXY".toList) g.fetch := by
  unfold wrapFetch
  rw [htarget, Option.getD_some]
  split
  · next h => exact absurd h hfetch
  · exact absurd rfl hne
  · rfl

/-- What an injection gives to the wrapper is the value of the user's list. -/
theorem injectedMatches (cases : CaseMap) (u : Text) : InjectedMatches cases u := by
  intro port env
  refine ⟨_, by rw [injectEnvironment, composeNoProxy_text]; rfl, ?_⟩
  intro g henv hfetch
  have htarget : proxyTarget g.env = some (proxyUrl port) := by
    rw [henv]
    rfl
  have hnoProxy : g.env "NO_PROXY".toList = some (composed u) := by
    rw [henv]
    rfl
  have hurl : proxyUrl port ≠ [] := List.append_ne_nil_of_left_ne_nil (by decide) _
  refine ⟨proxyUrl port, some (composed u), matcher cases u, ?_, ?_, buildNoProxyMatcher_text _ _⟩
  · rw [wrapFetch_installs hfetch htarget hurl, hnoProxy]
  · rw [ofEnv, buildNoProxyMatcher_text, matcher, composed_composed]
    rfl

/-- The composed value is a normal form: it lists what it should, composing it again gives it
back, and the wrapper matches the hosts that the user's list matches. -/
theorem composeNoProxy_normal_form (cases : CaseMap) (u : Text) :
    ∃ value, composeNoProxy (.text u) = .ok value ∧ Lists u value ∧
      composeNoProxy (.text value) = .ok value ∧ InjectedMatches cases u := by
  refine ⟨composed u, composeNoProxy_text u, lists_composed u, ?_, injectedMatches cases u⟩
  rw [composeNoProxy_text, composed_composed]

end DshClashProxy.Core.NoProxyList
