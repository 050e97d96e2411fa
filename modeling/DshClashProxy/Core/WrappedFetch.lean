import DshClashProxy.Core.NoProxyList

/-!
# The calls of a wrapped fetch

The wrapper reads the URL of a call from a string or from the field `url` of an object, and
resolves it against a placeholder. A `URL` object has no such field. It counts as an empty
text, whose host is the placeholder's, and so does an `http:` text with fewer than two
slashes, which has a host of its own only without a base.

The URL parser is a parameter that carries what the development needs of it.
-/
namespace DshClashProxy.Core.WrappedFetch

open Js Js.Text Inject NoProxyList

/-! ## URLs -/

/-- The base that the wrapper resolves against, and its host. -/
def placeholder : Text := "http://placeholder.invalid".toList

def placeholderHost : Text := "placeholder.invalid".toList

/-- A URL text as it is parsed: without control characters and blanks in front, and without
tabs and line breaks. -/
def stripped (s : Text) : Text :=
  (s.dropWhile fun c => c.toNat ≤ 32).filter fun c => c ≠ '\t' && c ≠ '\n' && c ≠ '\r'

def isSlash (c : Char) : Bool := c = '/' || c = '\\'

/-- A text with the scheme of the placeholder but without two slashes behind it. A base with
that scheme makes it a relative reference. -/
def schemeRelative (s : Text) : Bool :=
  ((stripped s).take 5).map Char.toLower = "http:".toList &&
    match (stripped s).drop 5 with
    | a :: b :: _ => !(isSlash a && isSlash b)
    | _ => true

/-- `new URL(text, base).hostname`, none where the constructor throws. A relative reference
takes its host from the base, and an absolute one does not see the base. -/
structure UrlParser where
  hostname : Text → (base : Option Text) → Option Text
  hostname_empty : hostname [] (some placeholder) = some placeholderHost
  hostname_relative : ∀ s host, hostname s none = some host → schemeRelative s = true →
    hostname s (some placeholder) = some placeholderHost
  hostname_absolute : ∀ s host, hostname s none = some host → schemeRelative s = false →
    hostname s (some placeholder) = some host

/-! ## Calls -/

/-- The first argument of `fetch`. -/
inductive Input where
  | string (s : Text)
  /-- A `URL` object. -/
  | url (href : Text)
  /-- An object with a string in its field `url`. -/
  | request (url : Text)
  /-- Any other value. -/
  | other

/-- A dispatcher that is named for a call. -/
inductive Agent where
  | proxyAgent (target : Text)
  | provided (id : Nat)
  deriving DecidableEq

/-- The second argument. -/
inductive Init where
  /-- Undefined or null. -/
  | missing
  /-- A value that is no object. -/
  | primitive
  /-- An object. Its dispatcher is none where that field is undefined or null. -/
  | object (dispatcher : Option Agent)
  deriving DecidableEq

def Init.dispatcher : Init → Option Agent
  | .object dispatcher => dispatcher
  | _ => none

/-- The URL that a call without a wrapper goes to. -/
def Input.text : Input → Option Text
  | .string s => some s
  | .url href => some href
  | .request s => some s
  | .other => none

/-- The text that the wrapper takes for the URL. -/
def Input.href : Input → Text
  | .string s => s
  | .request s => s
  | .url _ => []
  | .other => []

section Wrapper
variable (cases : CaseMap) (urls : UrlParser)

/-- The host that the wrapper sees, empty where the URL cannot be parsed. -/
def seenHost (input : Input) : Text := (urls.hostname input.href (some placeholder)).getD []

/-- The wrapper: what it calls the original fetch with besides the input. -/
def wrapped (target : Text) (bypasses : Text → Bool) (input : Input) (init : Init) : Init :=
  let dispatcher := init.dispatcher.or
    (if bypasses (seenHost urls input) then none else some (.proxyAgent target))
  match dispatcher with
  | none => init
  | some dispatcher => .object (some dispatcher)

/-- A call of `globalThis.fetch`: the init that gets past the wrapper, if there is one. -/
def callFetch (fetch : Fetch) (input : Input) (init : Init) : Except Text Init :=
  match fetch with
  | .wrapped _ target noProxy _ => do
      let bypasses ← buildNoProxyMatcher cases (ofEnv noProxy)
      return wrapped urls target bypasses input init
  | _ => .ok init

/-- The input denotes an absolute URL with this hostname. -/
def Denotes (input : Input) (host : Text) : Prop :=
  ∃ s, input.text = some s ∧ urls.hostname s none = some host

/-- The call goes through the proxy's dispatcher. -/
def Proxied (init : Init) : Prop := ∃ target, init.dispatcher = some (.proxyAgent target)

def loopbackHosts : List Text := ["localhost", "127.0.0.1", "[::1]"].map String.toList

/-- Calls that name no dispatcher go through the proxy exactly where the predicate is false of
the host, so none to a loopback host does. -/
def RoutesByHost (fetch : Fetch) (predicate : Text → Bool) (input : Input) (host : Text) : Prop :=
  ∀ init : Init, init.dispatcher = none →
    ∃ passed, callFetch cases urls fetch input init = .ok passed ∧
      (Proxied passed ↔ predicate host = false) ∧ (host ∈ loopbackHosts → ¬ Proxied passed)

/-- The wrapper reads the host of such a call. -/
def ReadsHost : Input → Prop
  | .string s => schemeRelative s = false
  | .request s => schemeRelative s = false
  | _ => False

end Wrapper

/-! ## The host that is judged -/

section Wrapper
variable {cases : CaseMap} {urls : UrlParser}

/-- Without a dispatcher of its own a call is proxied where the host that is seen does not
match. -/
theorem proxied_wrapped {target : Text} {bypasses : Text → Bool} {input : Input} {init : Init}
    (h : init.dispatcher = none) :
    Proxied (wrapped urls target bypasses input init) ↔
      bypasses (seenHost urls input) = false := by
  unfold wrapped
  rw [h, Option.none_or]
  cases hseen : bypasses (seenHost urls input) with
  | true =>
      refine iff_of_false (fun hp => ?_) (by decide)
      obtain ⟨t, ht⟩ := hp
      change init.dispatcher = _ at ht
      rw [h] at ht
      cases ht
  | false => exact iff_of_true ⟨target, rfl⟩ rfl

theorem seenHost_of_reads {input : Input} {host : Text} (hdenotes : Denotes urls input host)
    (hreads : ReadsHost input) : seenHost urls input = host := by
  obtain ⟨s, hs, hhost⟩ := hdenotes
  cases input with
  | string t | request t =>
      obtain rfl := Option.some.inj hs
      rw [seenHost, Input.href, urls.hostname_absolute t host hhost hreads, Option.getD_some]
  | url href => exact hreads.elim
  | other => exact hreads.elim

theorem seenHost_of_not_reads {input : Input} {host : Text} (hdenotes : Denotes urls input host)
    (hreads : ¬ ReadsHost input) : seenHost urls input = placeholderHost := by
  obtain ⟨s, hs, hhost⟩ := hdenotes
  cases input with
  | string t | request t =>
      obtain rfl := Option.some.inj hs
      have hrelative : schemeRelative t = true := by simpa [ReadsHost] using hreads
      rw [seenHost, Input.href, urls.hostname_relative t host hhost hrelative, Option.getD_some]
  | url href => rw [seenHost, Input.href, urls.hostname_empty, Option.getD_some]
  | other => cases hs

/-- The loopback hosts match whatever the user's list is. -/
theorem matcher_loopback (u : Text) {host : Text} (h : host ∈ loopbackHosts) :
    matcher cases u host = true := by
  have hlower : cases.toLower host = host := by
    have hall : ∀ host ∈ loopbackHosts, IsAscii host ∧ host.map Char.toLower = host := by decide
    obtain ⟨hascii, hmap⟩ := hall host h
    rw [cases.toLower_ascii host hascii, hmap]
  have hhost : host = "localhost".toList ∨ host = "127.0.0.1".toList ∨ host = "[::1]".toList := by
    simpa [loopbackHosts] using h
  unfold matcher matchesNoProxy
  split
  · rfl
  · simp only [hlower]
    rcases hhost with rfl | rfl | rfl <;> simp [startsWith]

theorem buildNoProxyMatcher_ofEnv (noProxy : Option Text) :
    buildNoProxyMatcher cases (ofEnv noProxy) = .ok (matcher cases (noProxy.getD [])) := by
  cases noProxy with
  | none => exact buildNoProxyMatcher_text cases []
  | some u => exact buildNoProxyMatcher_text cases u

/-- The fetch that an installation leaves in place. -/
theorem fetch_of_installed {g : Globals} (h : (wrapFetch g).2 ≠ none) :
    ∃ target, (wrapFetch g).1.fetch =
      .wrapped g.wrappers target (g.env "NO_PROXY".toList) g.fetch := by
  revert h
  unfold wrapFetch
  split
  · exact fun h => absurd rfl h
  · exact fun h => absurd rfl h
  · exact fun _ => ⟨_, rfl⟩

/-- Calls for a host are routed by it exactly where the wrapper reads it, or where the
placeholder's host is judged alike. -/
theorem routesByHost_iff {g : Globals} (hinstalled : (wrapFetch g).2 ≠ none)
    {predicate : Text → Bool}
    (hpredicate : buildNoProxyMatcher cases (ofEnv (g.env "NO_PROXY".toList)) = .ok predicate)
    {input : Input} {host : Text} (hdenotes : Denotes urls input host) :
    RoutesByHost cases urls (wrapFetch g).1.fetch predicate input host ↔
      ReadsHost input ∨ predicate host = predicate placeholderHost := by
  obtain ⟨target, hfetch⟩ := fetch_of_installed hinstalled
  have hcall : ∀ init, callFetch cases urls (wrapFetch g).1.fetch input init =
      .ok (wrapped urls target predicate input init) := by
    intro init
    rw [hfetch, callFetch, hpredicate]
    rfl
  have hloopback : host ∈ loopbackHosts → predicate host = true := by
    rw [buildNoProxyMatcher_ofEnv] at hpredicate
    rw [← Except.ok.inj hpredicate]
    exact matcher_loopback _
  have hroutes : RoutesByHost cases urls (wrapFetch g).1.fetch predicate input host ↔
      predicate (seenHost urls input) = predicate host := by
    constructor
    · intro h
      obtain ⟨passed, hpassed, hiff, -⟩ := h .missing rfl
      rw [hcall] at hpassed
      rw [← Except.ok.inj hpassed, proxied_wrapped rfl] at hiff
      exact Bool.eq_iff_iff.mpr (by simpa using not_congr hiff)
    · intro h init hinit
      refine ⟨_, hcall init, ?_, fun hmem => ?_⟩
      · rw [proxied_wrapped hinit, h]
      · rw [proxied_wrapped hinit, h, hloopback hmem]
        decide
  rw [hroutes]
  by_cases hreads : ReadsHost input
  · rw [seenHost_of_reads hdenotes hreads]
    exact iff_of_true rfl (.inl hreads)
  · rw [seenHost_of_not_reads hdenotes hreads, or_iff_right hreads]
    exact eq_comm

end Wrapper

/-! ### A local server -/

def localUrl : Text := "http://localhost:3000/".toList

/-- A parser for the URL of the server. -/
def localUrls : UrlParser where
  hostname s base :=
    if s = localUrl then some "localhost".toList
    else if s = [] then base.map fun _ => placeholderHost
    else none
  hostname_empty := rfl
  hostname_relative s host hs hrelative := by
    by_cases h : s = localUrl
    · rw [h] at hrelative
      exact absurd hrelative (by decide)
    · simp [h] at hs
  hostname_absolute s host hs _ := by
    by_cases h : s = localUrl
    · simpa [h] using hs
    · simp [h] at hs

/-- A process whose environment names a proxy. -/
def proxiedProcess : Globals where
  env key := if key = "HTTPS_PROXY".toList then some "http://127.0.0.1:7890".toList else none

theorem localUrl_bypasses :
    RoutesByHost .ascii localUrls (wrapFetch proxiedProcess).1.fetch (matcher .ascii [])
      (.string localUrl) "localhost".toList := by
  have hdenotes : Denotes localUrls (.string localUrl) "localhost".toList := ⟨localUrl, rfl, rfl⟩
  exact (routesByHost_iff (by decide) (buildNoProxyMatcher_ofEnv _) hdenotes).mpr
    (.inl (show schemeRelative localUrl = false by decide))

/-- The same URL as an object goes through the proxy. -/
theorem url_object_proxied :
    ¬ ∀ (cases : CaseMap) (urls : UrlParser) (g : Globals) (predicate : Text → Bool)
      (input : Input) (host : Text), (wrapFetch g).2 ≠ none →
      buildNoProxyMatcher cases (ofEnv (g.env "NO_PROXY".toList)) = .ok predicate →
      Denotes urls input host →
      RoutesByHost cases urls (wrapFetch g).1.fetch predicate input host := by
  intro h
  have hroutes := h .ascii localUrls proxiedProcess _ (.url localUrl) "localhost".toList
    (by decide) (buildNoProxyMatcher_ofEnv _) ⟨localUrl, rfl, rfl⟩
  obtain ⟨passed, hpassed, -, hnot⟩ := hroutes .missing rfl
  refine hnot (by decide) ⟨"http://127.0.0.1:7890".toList, ?_⟩
  have hwrapped : callFetch .ascii localUrls (wrapFetch proxiedProcess).1.fetch (.url localUrl)
      .missing = .ok (.object (some (.proxyAgent "http://127.0.0.1:7890".toList))) := by decide
  rw [hwrapped] at hpassed
  rw [← Except.ok.inj hpassed]
  rfl

end DshClashProxy.Core.WrappedFetch
