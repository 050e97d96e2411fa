import DshClashProxy.Core.Inject
import DshClashProxy.Core.Rules
import DshClashProxy.Lib.Serial

/-!
# The manager

`ClashManager` owns the subscription, the rule engine, the proxy server, the injection and
the timers. Its public methods queue operations that run one after another; the runtime
switch, the applied signature and the live configuration change outside the queue, and
`selectNode` runs beside it.

Latency tests, traffic counters and logging are left out: none of them decides what an
operation does here. Disposing a fetch dispatcher takes a turn of the event loop even when
there is nothing to dispose, as `await` does.
-/
namespace DshClashProxy.Core.Manager

open Js Js.Text Inject
open Rules (RuleEngine Yaml)
open Lib.Async Lib.Serial

inductive GroupType where
  | select
  | urlTest
  | fallback
  deriving DecidableEq

def GroupType.text : GroupType → Text
  | select => "select".toList
  | urlTest => "url-test".toList
  | fallback => "fallback".toList

/-- The settings section; a field that is not set is `none`. -/
structure Config where
  enabled : Option Bool := some true
  subscriptionUrl : Option Text := none
  fetchProxyUrl : Option Text := none
  autoUpdateHours : Option Number := none
  groupType : Option GroupType := none
  latencyTestUrl : Option Text := none
  latencyTimeoutMs : Option Number := none
  noProxy : NoProxy := .undefined
  extraRules : Option (List Text) := none
  excludeRules : Option (List Text) := none
  deriving DecidableEq

/-- What `JSON.stringify` writes for a setting. -/
inductive Json where
  | null
  | bool (b : Bool)
  | number (q : ℚ)
  | text (s : Text)
  | texts (items : List Text)
  deriving DecidableEq

def Json.ofNumber : Number → Json
  | .finite q => .number q
  | _ => .null

def Json.ofNoProxy : NoProxy → Option Json
  | .undefined => none
  | .null => some .null
  | .text s => some (.text s)

abbrev Signature := List (Text × Json)

/-- The fields whose change requires a restart, and `enabled`. Fields that are not set are
not written. -/
def signature (next : Config) : Signature :=
  [("subscriptionUrl", next.subscriptionUrl.map Json.text),
    ("fetchProxyUrl", next.fetchProxyUrl.map Json.text),
    ("autoUpdateHours", next.autoUpdateHours.map Json.ofNumber),
    ("groupType", next.groupType.map (Json.text ·.text)),
    ("latencyTestUrl", next.latencyTestUrl.map Json.text),
    ("latencyTimeoutMs", next.latencyTimeoutMs.map Json.ofNumber),
    ("noProxy", Json.ofNoProxy next.noProxy),
    ("extraRules", next.extraRules.map Json.texts),
    ("excludeRules", next.excludeRules.map Json.texts),
    ("enabled", next.enabled.map Json.bool)].filterMap
    fun e => e.2.map fun value => (e.1.toList, value)

/-- What `parseSubscription` takes from a body: the rules, the names of the nodes, and
those under which `#nodeMap` finds a node. -/
structure Parsed where
  rules : List Yaml := []
  names : List Text := []
  nodes : List Text := []

structure Subscription where
  raw : Text
  updatedAt : Option Nat
  parsed : Parsed

inductive State where
  | stopped
  | starting
  | running
  | failed
  | disabled
  | noSubscription
  deriving DecidableEq

structure Meta where
  time : Option Nat
  url : Option Text

/-- The data directory: `subscription.yaml`, `subscription.meta.json` and the selection in
`state.json`. -/
structure Disk where
  subscription : Option Text := none
  subscriptionMeta : Option Meta := none
  selected : Option (Option Text) := none

/-- The fields of the manager, and what its operations act on. -/
structure World where
  state : State := .stopped
  error : Option Text := none
  subscription : Option Subscription := none
  engine : Option RuleEngine := none
  /-- The `ProxyServer` held, by the number of its construction. -/
  server : Option Nat := none
  port : Nat := 0
  selected : Option Text := none
  undoEnv : Option SavedEnv := none
  undoDispatcher : Option Undo := none
  /-- The period of the auto-update timer, in hours. -/
  autoUpdateDisposer : Option Number := none
  latencyTimerDisposer : Bool := false
  /-- The `ProxyServer` instances constructed so far. -/
  servers : Nat := 0
  /-- The `ProxyServer` instances that listen. -/
  listening : List Nat := []
  /-- The port an instance has listened on. -/
  ports : Nat → Option Nat := fun _ => none
  /-- History: the URL that gave the subscription in use, unless the cached copy did. -/
  fetchedFrom : Option Text := none
  /-- History: the name last given to `selectNode`. -/
  chosen : Option Text := none
  /-- History: a name read from `state.json` that no boot has taken over yet. -/
  readName : Option Text := none
  disk : Disk := {}
  globals : Globals

/-- What changes outside the queue. -/
structure Flags where
  config : Config
  runtimeOff : Bool := false
  applied : Option Signature := none
  /-- `Date.now()`. -/
  now : Nat := 0

/-- An operation boots only when these allow it. -/
def Flags.on (flags : Flags) : Bool := flags.config.enabled ≠ some false && !flags.runtimeOff

inductive Op where
  | start
  | stop
  | restart
  | updateSubscription
  deriving DecidableEq

inductive Request where
  /-- A turn of the event loop. -/
  | settle
  | fetchSubscription (url fetchProxyUrl : Text)
  | mkdir
  | writeCache (raw : Text)
  | writeMeta (time : Nat) (url : Text)
  | readCache
  | readMeta
  | readState
  | writeState (selected : Option Text)
  | listen (server : Nat)
  /-- The import, which finds the module or not, and the making of an agent, which may
  throw before anything is installed. -/
  | importUndici

abbrev Request.Response : Request → Type
  | .settle => Unit
  | .fetchSubscription _ _ => Except Text Text
  | .mkdir => Except Text Unit
  | .writeCache _ => Except Text Unit
  | .writeMeta _ _ => Except Text Unit
  | .readCache => Except Text Text
  | .readMeta => Except Text (Option Nat)
  | .readState => Except Text (Option Text)
  | .writeState _ => Except Text Unit
  | .listen _ => Except Text Nat
  | .importUndici => Except Text (Option Undici)

abbrev interface : Interface where
  State := World
  Flags := Flags
  Op := Op
  Error := Text
  Request := Request
  Response := Request.Response

abbrev Program := Prog interface

def request (q : Request) : Program q.Response := Prog.request (I := interface) q

/-- What the manager is constructed with and what it imports. -/
structure Host where
  cases : CaseMap
  /-- What a subscription body holds, or why it cannot be parsed. -/
  parseSubscription : Text → Except Text Parsed
  subscriptionUrlEnv : Text

/-! ## Synchronous parts -/

/-- `this.#undoDispatcher?.()`. -/
def World.runUndoDispatcher (w : World) : World :=
  { w with globals := runUndo w.undoDispatcher w.globals }

def World.clearUndoDispatcher (w : World) : World := { w with undoDispatcher := none }

/-- `this.#undoEnv?.()`. -/
def World.runUndoEnv (w : World) : World :=
  { w with globals := { w.globals with env := runRestoreEnv w.undoEnv w.globals.env } }

def World.clearUndoEnv (w : World) : World := { w with undoEnv := none }

/-- `this.#server?.stop()`, then `this.#server = null`. -/
def World.stopServer (w : World) : World :=
  { w with
    listening := w.listening.filter fun id => w.server ≠ some id
    server := none }

def World.disposeAutoUpdate (w : World) : World := { w with autoUpdateDisposer := none }

def World.disposeLatencyTimer (w : World) : World := { w with latencyTimerDisposer := false }

def World.scheduleAutoUpdate (config : Config) (w : World) : World :=
  match config.autoUpdateHours with
  | some (.finite hours) =>
      if 0 < hours then { w with autoUpdateDisposer := some (.finite hours) }
      else w.disposeAutoUpdate
  | _ => w.disposeAutoUpdate

/-- Scheduling replaces the timer and nothing else. -/
theorem World.scheduleAutoUpdate_same {β : Type} {f : World → β}
    (hf : ∀ w disposer, f { w with autoUpdateDisposer := disposer } = f w) (config : Config)
    (w : World) : f (w.scheduleAutoUpdate config) = f w := by
  unfold World.scheduleAutoUpdate
  split
  · split
    · exact hf w _
    · exact hf w _
  · exact hf w _

def World.scheduleLatencyTests (config : Config) (w : World) : World :=
  { w with latencyTimerDisposer := config.groupType = some .urlTest }

/-- A new engine, and a new `ProxyServer` in place of the one held. -/
def World.construct (engine : RuleEngine) (w : World) : World :=
  { w with engine := some engine, server := some w.servers, servers := w.servers + 1 }

def World.install (undici : Option Undici) (w : World) : World :=
  { w with
    globals := (installFetchDispatcher undici w.globals).1
    undoDispatcher := (installFetchDispatcher undici w.globals).2 }

variable (host : Host)

/-- The configured URL, or the one in the environment. -/
def subscriptionUrl (config : Config) (w : World) : Text :=
  match config.subscriptionUrl.getD [] with
  | [] => (w.globals.env host.subscriptionUrlEnv).getD []
  | url => url

def newEngine (config : Config) (subscription : Subscription) : RuleEngine :=
  RuleEngine.new host.cases (config.extraRules.getD []) (config.excludeRules.getD [])
    subscription.parsed.rules

/-! ## Operations -/

def awaitUndoDispatcher : Program Unit := do
  Prog.modify World.runUndoDispatcher
  request .settle
  Prog.modify World.clearUndoDispatcher

def awaitUndoEnv : Program Unit := do
  Prog.modify World.runUndoEnv
  request .settle
  Prog.modify World.clearUndoEnv

def loadFromUrl (config : Config) (url : Text) : Program Unit := do
  let raw ← Prog.ofExcept (← request (.fetchSubscription url (config.fetchProxyUrl.getD [])))
  Prog.ofExcept (← request .mkdir)
  Prog.ofExcept (← request (.writeCache raw))
  Prog.ofExcept (← request (.writeMeta (← Prog.flags).now url))
  let flags ← Prog.flags
  let parsed ← Prog.ofExcept (host.parseSubscription raw)
  Prog.modify fun w =>
    { w with subscription := some ⟨raw, some flags.now, parsed⟩, fetchedFrom := some url }

def loadFromCache : Program Unit := do
  let cached := (← request .readCache).toOption.getD []
  if (trim cached).isEmpty then
    Prog.modify fun w =>
      { w with subscription := none, fetchedFrom := none, state := .noSubscription }
  else do
    let updatedAt := (← request .readMeta).toOption.join
    let parsed ← Prog.ofExcept (host.parseSubscription cached)
    Prog.modify fun w =>
      { w with subscription := some ⟨cached, updatedAt, parsed⟩, fetchedFrom := none }

/-- Load the subscription body from the URL or the cached copy. -/
def loadSubscription (config : Config) (force : Bool) : Program Unit := do
  let w ← Prog.read
  if !force && w.subscription.isSome then pure ()
  else if (subscriptionUrl host config w).isEmpty then loadFromCache host
  else loadFromUrl host config (subscriptionUrl host config w)

def loadState : Program Unit := do
  match (← request .readState) with
  | .ok (some selected) =>
      Prog.modify fun w => { w with selected := some selected, readName := none }
  | _ => pure ()

/-- Construct the engine and the server, listen, and inject. -/
def launch (config : Config) (subscription : Subscription) : Program Unit := do
  let server := (← Prog.read).servers
  Prog.modify (World.construct (newEngine host config subscription))
  let port ← Prog.ofExcept (← request (.listen server))
  Prog.modify fun w => { w with port := port }
  let injected ← Prog.ofExcept (injectEnvironment port config.noProxy (← Prog.read).globals.env)
  Prog.modify fun w =>
    { w with globals := { w.globals with env := injected.1 }, undoEnv := some injected.2 }
  let undici ← Prog.ofExcept (← request .importUndici)
  Prog.modify (World.install undici)
  Prog.modify fun w => { w with state := .running, error := none }
  Prog.modify (World.scheduleAutoUpdate config)
  Prog.modify (World.scheduleLatencyTests config)

def boot (config : Config) : Program Unit := do
  loadSubscription host config false
  match (← Prog.read).subscription with
  | none => Prog.modify fun w => { w with state := .noSubscription }
  | some subscription => do
      loadState
      launch host config subscription

def bootFailed (error : Text) : Program Unit := do
  Prog.modify fun w => { w with state := .failed, error := some error }
  Prog.modify World.stopServer
  awaitUndoDispatcher
  awaitUndoEnv

/-- The real boot path. -/
def startCore (config : Config) : Program Unit := do
  Prog.modify fun w => { w with state := .starting, error := none }
  awaitUndoDispatcher
  awaitUndoEnv
  (boot host config).tryCatch bootFailed

def start : Program Unit := do
  let flags ← Prog.flags
  let w ← Prog.read
  if w.server.isSome || !flags.on then
    Prog.modify fun w => { w with state := if flags.on then w.state else .disabled }
  else startCore host flags.config

def stop : Program Unit := do
  Prog.modify fun w => w.disposeAutoUpdate.disposeLatencyTimer.runUndoDispatcher
  request .settle
  Prog.modify fun w => w.clearUndoDispatcher.runUndoEnv.clearUndoEnv.stopServer
  Prog.modify fun w =>
    { w with
      engine := none
      port := 0
      state :=
        if w.state ≠ .disabled ∧ w.state ≠ .noSubscription then .stopped else w.state }

def restart : Program Unit := do
  let flags ← Prog.flags
  if flags.on then startCore host flags.config
  else do
    let id ← Prog.enqueue (I := interface) .stop
    Prog.ofExcept (← Prog.settled id)

def updateSubscription : Program Unit := do
  let flags ← Prog.flags
  if flags.config.enabled = some false then pure ()
  else do
    loadSubscription host flags.config true
    startCore host flags.config

def body : Op → Program Unit
  | .start => start host
  | .stop => stop
  | .restart => restart host
  | .updateSubscription => updateSubscription host

/-! ## Selecting a node, outside the queue -/

/-- The keys of `#nodeMap()`. -/
def nodeMap (w : World) : List Text := w.subscription.elim [] fun s => s.parsed.nodes

/-- Persist the manual selection. -/
def saveState : Program Unit :=
  Prog.tryCatch (do
      Prog.ofExcept (← request .mkdir)
      Prog.ofExcept (← request (.writeState (← Prog.read).selected)))
    fun _ => pure ()

def selectNode (name : Text) : Program Unit := do
  if (nodeMap (← Prog.read)).contains name then
    Prog.modify fun w => { w with selected := some name, chosen := some name }
    saveState
  else Prog.fail ("unknown node ".toList ++ name)

/-! ## The status -/

/-- The snapshot for the browser page. -/
structure Status where
  state : State
  error : Option Text
  runtimeOff : Bool
  enabled : Bool
  subscriptionUrlSet : Bool
  subscriptionUrlEnv : Text
  lastSubscriptionUpdate : Option Nat
  nodeCount : Nat
  port : Nat
  selected : Option Text
  groupType : Option GroupType
  latencyTestUrl : Option Text
  autoUpdateHours : Option Number
  version : Text

def status (flags : Flags) (w : World) : Status where
  state := w.state
  error := w.error
  runtimeOff := flags.runtimeOff
  enabled := flags.config.enabled ≠ some false
  subscriptionUrlSet := !(flags.config.subscriptionUrl.getD []).isEmpty
  subscriptionUrlEnv := host.subscriptionUrlEnv
  lastSubscriptionUpdate := w.subscription.bind Subscription.updatedAt
  nodeCount := w.subscription.elim 0 fun s => s.parsed.names.length
  port := w.port
  selected := w.selected
  groupType := flags.config.groupType
  latencyTestUrl := flags.config.latencyTestUrl
  autoUpdateHours := flags.config.autoUpdateHours
  version := "2".toList

/-! ## The system -/

inductive Call where
  | start
  | stop
  | restart
  | updateSubscription
  | setRuntimeEnabled (enabled : Bool)
  | reconcile (next : Config)
  /-- The live section changes. -/
  | configure (config : Config)
  /-- The clock goes on. -/
  | tick (now : Nat)
  /-- The auto-update timer fires. -/
  | autoUpdate

def reconcile (next : Config) (flags : Flags) : Flags × List Op :=
  if flags.applied = some (signature next) then (flags, [])
  else
    ({ flags with applied := some (signature next) },
      [if next.enabled = some false then .stop else .restart])

def call : Call → Flags → Flags × List Op
  | .start, flags => (flags, [.start])
  | .stop, flags => (flags, [.stop])
  | .restart, flags => (flags, [.restart])
  | .updateSubscription, flags => (flags, [.updateSubscription])
  | .setRuntimeEnabled enabled, flags =>
      ({ flags with runtimeOff := !enabled }, [if enabled then .restart else .stop])
  | .reconcile next, flags => reconcile next flags
  | .configure config, flags => ({ flags with config := config }, [])
  | .tick now, flags => ({ flags with now := now }, [])
  | .autoUpdate, flags => (flags, [.updateSubscription])

/-- What is read from the data directory was there. -/
def allowed : (q : Request) → World → q.Response → Prop
  | .readCache, w, .ok raw => w.disk.subscription = some raw
  | .readMeta, w, .ok time => ∃ m ∈ w.disk.subscriptionMeta, m.time = time
  | .readState, w, .ok selected => w.disk.selected = some selected
  | _, _, _ => True

def effect : (q : Request) → q.Response → World → World
  | .writeCache raw, .ok _, w => { w with disk := { w.disk with subscription := some raw } }
  | .writeMeta time url, .ok _, w =>
      { w with disk := { w.disk with subscriptionMeta := some ⟨some time, some url⟩ } }
  | .readState, .ok (some selected), w => { w with readName := some selected }
  | .writeState selected, .ok _, w =>
      { w with disk := { w.disk with selected := some selected } }
  | .listen server, .ok port, w =>
      { w with
        listening := server :: w.listening
        ports := fun id => if id = server then some port else w.ports id }
  | _, _, w => w

def system : System interface where
  allowed := allowed
  effect := effect
  body := body host
  Call := Call
  enabled c w := c = .autoUpdate → w.autoUpdateDisposer.isSome
  call := call

/-- A manager just constructed in a process with these globals. -/
def initial (globals : Globals) (disk : Disk) (config : Config) : Machine interface where
  shared := { disk := disk, globals := globals }
  flags := { config := config }

end DshClashProxy.Core.Manager
