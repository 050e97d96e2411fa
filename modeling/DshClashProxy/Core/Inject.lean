import DshClashProxy.Js.Text

/-!
# Harness-scoped proxy injection

`injectEnvironment` points eight environment variables at the local proxy and remembers
what they held. `installFetchDispatcher` redirects `fetch`, through the runtime's own
undici where there is one and by wrapping `globalThis.fetch` elsewhere. Both hand back
what undoes them.

The process environment is a map with case-sensitive keys. A wrapper is told from other
functions by a number of its own, and what it captures is kept with it. A `ProxyAgent` on
the loopback target can always be made.
-/
namespace DshClashProxy.Core.Inject

open Js Js.Text

/-- `process.env`. -/
abbrev Env := Text → Option Text

def Env.set (env : Env) (key : Text) (value : Option Text) : Env :=
  fun k => if k = key then value else env k

/-- The variables that name a proxy. -/
def targetKeys : List Text :=
  ["HTTP_PROXY", "HTTPS_PROXY", "ALL_PROXY", "http_proxy", "https_proxy", "all_proxy"].map
    String.toList

/-- Proxy-related environment keys that are set and restored. -/
def proxyEnvKeys : List Text := targetKeys ++ ["NO_PROXY", "no_proxy"].map String.toList

/-- Loopback entries always exempt from the proxy. -/
def loopbackNoProxy : Text := "localhost,127.0.0.1,::1,<local>".toList

abbrev SavedEnv := List (Text × Option Text)

def snapshotEnv (env : Env) : SavedEnv := proxyEnvKeys.map fun key => (key, env key)

/-- The disposer of `injectEnvironment`. -/
def restoreEnv (saved : SavedEnv) (env : Env) : Env :=
  saved.foldl (fun env e => env.set e.1 e.2) env

/-- `disposer?.()`. -/
def runRestoreEnv (saved : Option SavedEnv) (env : Env) : Env :=
  saved.elim env (restoreEnv · env)

/-- A `NO_PROXY` value the user may have configured. -/
inductive NoProxy where
  | undefined
  | null
  | text (s : Text)
  deriving DecidableEq

/-- The `NO_PROXY` value: the user list plus the loopback entries, each once. -/
def composeNoProxy (userValue : NoProxy) : Except Text Text :=
  let join (parts : List Text) : Text :=
    [','].intercalate
      (((([','].intercalate parts).splitOn ',').map trim).filter (· ≠ [])).eraseDups
  match userValue with
  | .undefined => .ok (join [loopbackNoProxy])
  | .null => .error "Cannot read properties of null (reading 'length')".toList
  | .text s => .ok (join (if s.isEmpty then [loopbackNoProxy] else [loopbackNoProxy, s]))

def setAll (keys : List Text) (value : Text) (env : Env) : Env :=
  keys.foldl (fun env key => env.set key (some value)) env

/-- Point the environment at the local proxy. Nothing is written when the value for
`NO_PROXY` cannot be built. -/
def injectEnvironment (port : Nat) (noProxyUser : NoProxy) (env : Env) :
    Except Text (Env × SavedEnv) := do
  let target := "http://127.0.0.1:".toList ++ (toString port).toList
  let noProxy ← composeNoProxy noProxyUser
  let env' := setAll targetKeys target env
  return ((env'.set "NO_PROXY".toList (some noProxy)).set "no_proxy".toList (some noProxy),
    snapshotEnv env)

/-! ## The fetch dispatcher -/

/-- `globalThis.fetch`. -/
inductive Fetch where
  | missing
  | native
  | wrapped (id : Nat) (target : Text) (noProxy : Option Text) (original : Fetch)
  deriving DecidableEq

/-- The global dispatcher of the runtime's own undici. -/
inductive Dispatcher where
  | native
  | envHttpProxyAgent
  | proxyAgent (target : Text)
  deriving DecidableEq

/-- An agent class a module may export. -/
inductive Export where
  | missing
  | throws
  | constructs
  deriving DecidableEq

/-- `node:undici`, where the import succeeds. -/
structure Undici where
  /-- It exports `setGlobalDispatcher` and `getGlobalDispatcher`. -/
  hasDispatchers : Bool
  envHttpProxyAgent : Export
  proxyAgent : Export
  deriving DecidableEq

/-- What the plugin changes in the process it runs in. -/
structure Globals where
  env : Env
  fetch : Fetch := .native
  dispatcher : Dispatcher := .native
  /-- Wrappers made so far. -/
  wrappers : Nat := 0

/-- A disposer of `installFetchDispatcher`. -/
inductive Undo where
  | dispatcher (previous : Dispatcher)
  | fetch (wrapped : Nat) (original : Fetch)
  deriving DecidableEq

def Undo.run (undo : Undo) (g : Globals) : Globals :=
  match undo with
  | .dispatcher previous => { g with dispatcher := previous }
  | .fetch id original =>
      match g.fetch with
      | .wrapped id' _ _ _ => if id' = id then { g with fetch := original } else g
      | _ => g

/-- `disposer?.()`. -/
def runUndo (undo : Option Undo) (g : Globals) : Globals := undo.elim g (Undo.run · g)

/-- `process.env.HTTPS_PROXY ?? process.env.HTTP_PROXY`. -/
def proxyTarget (env : Env) : Option Text :=
  env "HTTPS_PROXY".toList <|> env "HTTP_PROXY".toList

/-- Wrap `globalThis.fetch` with per-call proxy selection. -/
def wrapFetch (g : Globals) : Globals × Option Undo :=
  match g.fetch, (proxyTarget g.env).getD [] with
  | .missing, _ => (g, none)
  | _, [] => (g, none)
  | original, target =>
      ({ g with
          fetch := .wrapped g.wrappers target (g.env "NO_PROXY".toList) original
          wrappers := g.wrappers + 1 }, some (.fetch g.wrappers original))

/-- Make `fetch` honor the injected environment, once `node:undici` was imported or found
absent. A constructor that throws leads to the wrapper. -/
def installFetchDispatcher (builtin : Option Undici) (g : Globals) : Globals × Option Undo :=
  match builtin with
  | none => wrapFetch g
  | some undici =>
      if undici.hasDispatchers then
        match undici.envHttpProxyAgent with
        | .constructs =>
            ({ g with dispatcher := .envHttpProxyAgent }, some (.dispatcher g.dispatcher))
        | .throws => wrapFetch g
        | .missing =>
            match undici.proxyAgent, (proxyTarget g.env).getD [] with
            | .constructs, c :: target =>
                ({ g with dispatcher := .proxyAgent (c :: target) },
                  some (.dispatcher g.dispatcher))
            | _, _ => wrapFetch g
      else wrapFetch g

/-! ## What the disposers put back -/

/-- Values read from an environment are put back whatever the variables hold now. -/
theorem restoreEnv_read (env env' : Env) (keys : List Text) (k : Text) :
    restoreEnv (keys.map fun key => (key, env key)) env' k =
      if k ∈ keys then env k else env' k := by
  induction keys generalizing env' with
  | nil => simp [restoreEnv]
  | cons key rest ih =>
      change restoreEnv (rest.map _) (env'.set key (env key)) k = _
      rw [ih]
      by_cases hr : k ∈ rest
      · rw [if_pos hr, if_pos (List.mem_cons_of_mem _ hr)]
      · by_cases hk : k = key
        · subst hk
          rw [if_neg hr, if_pos List.mem_cons_self, Env.set, if_pos rfl]
        · have hn : k ∉ key :: rest := by simp [hk, hr]
          rw [if_neg hr, if_neg hn, Env.set, if_neg hk]

theorem setAll_of_not_mem {keys : List Text} {k : Text} (h : k ∉ keys) (value : Text)
    (env : Env) : setAll keys value env k = env k := by
  induction keys generalizing env with
  | nil => rfl
  | cons key rest ih =>
      rw [List.mem_cons, not_or] at h
      change setAll rest value (env.set key (some value)) k = env k
      rw [ih h.2, Env.set, if_neg h.1]

theorem setAll_of_mem {keys : List Text} {k : Text} (h : k ∈ keys) (value : Text) (env : Env) :
    setAll keys value env k = some value := by
  induction keys generalizing env with
  | nil => cases h
  | cons key rest ih =>
      change setAll rest value (env.set key (some value)) k = some value
      by_cases hr : k ∈ rest
      · exact ih hr _
      · obtain rfl := (List.mem_cons.mp h).resolve_right hr
        rw [setAll_of_not_mem hr, Env.set, if_pos rfl]

/-- Only an ill-typed `NO_PROXY` value stops an injection. -/
theorem injectEnvironment_error {port : Nat} {noProxy : NoProxy} {env : Env} {e : Text}
    (h : injectEnvironment port noProxy env = .error e) : noProxy = .null := by
  cases noProxy with
  | null => rfl
  | undefined => cases h
  | text s => cases h

/-- Where the variables point after an injection. -/
def proxyUrl (port : Nat) : Text := "http://127.0.0.1:".toList ++ (toString port).toList

theorem injectEnvironment_points {port : Nat} {noProxy : NoProxy} {env : Env}
    {injected : Env × SavedEnv} (h : injectEnvironment port noProxy env = .ok injected) :
    injected.1 "HTTP_PROXY".toList = some (proxyUrl port) := by
  unfold injectEnvironment at h
  cases hc : composeNoProxy noProxy with
  | error e =>
      rw [hc] at h
      cases h
  | ok value =>
      rw [hc] at h
      obtain rfl := Except.ok.inj h
      have hupper : "HTTP_PROXY".toList ≠ "NO_PROXY".toList := by decide
      have hlower : "HTTP_PROXY".toList ≠ "no_proxy".toList := by decide
      dsimp only
      rw [Env.set, if_neg hlower, Env.set, if_neg hupper]
      exact setAll_of_mem List.mem_cons_self _ env

/-- The disposer of an injection restores the environment the injection found. -/
theorem restoreEnv_injectEnvironment {port : Nat} {noProxy : NoProxy} {env env' : Env}
    {saved : SavedEnv} (h : injectEnvironment port noProxy env = .ok (env', saved)) :
    restoreEnv saved env' = env := by
  unfold injectEnvironment at h
  cases hc : composeNoProxy noProxy with
  | error e =>
      rw [hc] at h
      cases h
  | ok value =>
      rw [hc] at h
      obtain ⟨rfl, rfl⟩ := Prod.mk.inj (Except.ok.inj h)
      funext k
      rw [snapshotEnv, restoreEnv_read]
      split
      · rfl
      · rename_i hk
        simp only [proxyEnvKeys, List.map_cons, List.map_nil, List.mem_append, List.mem_cons,
          List.not_mem_nil, or_false, not_or] at hk
        rw [Env.set, if_neg hk.2.2, Env.set, if_neg hk.2.1, setAll_of_not_mem hk.1]

@[simp] theorem runUndo_env (undo : Option Undo) (g : Globals) :
    (runUndo undo g).env = g.env := by
  cases undo with
  | none => rfl
  | some undo =>
      cases undo with
      | dispatcher previous => rfl
      | fetch id original =>
          simp only [runUndo, Option.elim_some, Undo.run]
          split
          · split <;> rfl
          · rfl

/-- The disposer would leave a process with the fetch and the dispatcher of `found`. -/
def Undoes (undo : Option Undo) (g found : Globals) : Prop :=
  (runUndo undo g).fetch = found.fetch ∧ (runUndo undo g).dispatcher = found.dispatcher

theorem undoes_wrapFetch (g : Globals) :
    (wrapFetch g).1.env = g.env ∧ Undoes (wrapFetch g).2 (wrapFetch g).1 g := by
  unfold wrapFetch
  split
  · exact ⟨rfl, rfl, rfl⟩
  · exact ⟨rfl, rfl, rfl⟩
  · refine ⟨rfl, ?_, ?_⟩ <;> simp only [runUndo, Option.elim_some, Undo.run, if_true]

/-- An installation leaves the environment alone, and its disposer restores the fetch and
the dispatcher the installation found. -/
theorem undoes_installFetchDispatcher (builtin : Option Undici) (g : Globals) :
    (installFetchDispatcher builtin g).1.env = g.env ∧
      Undoes (installFetchDispatcher builtin g).2 (installFetchDispatcher builtin g).1 g := by
  cases builtin with
  | none => exact undoes_wrapFetch g
  | some undici =>
      simp only [installFetchDispatcher]
      split
      · split
        · exact ⟨rfl, rfl, rfl⟩
        · exact undoes_wrapFetch g
        · split
          · exact ⟨rfl, rfl, rfl⟩
          · exact undoes_wrapFetch g
      · exact undoes_wrapFetch g

end DshClashProxy.Core.Inject
