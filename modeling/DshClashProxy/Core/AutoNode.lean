import DshClashProxy.Js.OrderedMap
import DshClashProxy.Core.ConnectPort

/-!
# The automatic choice of a node

Without a manual selection `#resolveNode` picks among the nodes whose type is on a list of
supported types, and takes the first node of all only where none is. Which nodes can be dialled
is decided elsewhere, by `connectThrough`, and the two do not agree.
-/
namespace DshClashProxy.Core.AutoNode

open Js Js.Text ConnectPort

/-! ## Nodes -/

/-- A value of the field `type`. -/
inductive TypeValue where
  | undefined
  | null
  | string (s : Text)
  /-- A value that is not a string, with what `String` makes of it. -/
  | other (text : Text)

def TypeValue.toText : TypeValue → Text
  | .undefined => "undefined".toList
  | .null => "null".toList
  | .string s => s
  | .other text => text

/-- `String(type ?? "")`. -/
def TypeValue.textOrEmpty : TypeValue → Text
  | .undefined => []
  | .null => []
  | .string s => s
  | .other text => text

/-- A node of the subscription, with the fields that decide whether it is dialled. -/
inductive Node where
  /-- The node is a bare string. -/
  | bare (uri : Text)
  /-- The name is none where it is not a string. -/
  | object (name : Option Text) (type : TypeValue) (ss : Shadowsocks.Node) (vless : Vless.Node)

def Node.name : Node → Option Text
  | .bare uri => some uri
  | .object name _ _ _ => name

def supportedTypes : List Text :=
  ["http", "socks5", "socks", "ss", "trojan", "vless", "vmess", "hysteria2"].map String.toList

/-- The branch of `connectThrough` for a node; none where it throws before it opens anything.
A string has no type, and only a string equals `"direct"`. -/
def Node.dispatch (cases : CaseMap) (hasNativeConnector : Bool) : Node → Option Transport
  | .bare _ =>
      ConnectPort.dispatch cases hasNativeConnector
        (some { type := TypeValue.undefined.toText, port := .nan })
  | .object _ type ss vless =>
      let byType := ConnectPort.dispatch cases hasNativeConnector
        (some { type := type.toText, port := .nan, ss, vless })
      match type with
      | .other text =>
          if text = "direct".toList || text = "Direct".toList then none else byType
      | _ => byType

/-- The node is dispatched to a transport that attempts a connection. -/
def Dialable (cases : CaseMap) (node : Node) : Prop := (node.dispatch cases true).isSome = true

instance (cases : CaseMap) (node : Node) : Decidable (Dialable cases node) :=
  inferInstanceAs (Decidable (_ = true))

section Manager
variable (cases : CaseMap)

def isSupported : Node → Bool
  | .bare _ => false
  | .object _ type _ _ => supportedTypes.any (· = cases.toLower type.textOrEmpty)

/-- `#nodeMap()`: a later node of the same name takes the place of the earlier one. -/
def nodeMap (proxies : List Node) : OrderedMap Text Node :=
  proxies.foldl (fun map node =>
    match node.name with
    | some name => if name.length > 0 then map.set name node else map
    | none => map) {}

/-- One turn of the loop over the latencies: the best name so far with its delay. -/
def faster (latencies : Text → Option Number) (best : Option Text × Number) (name : Text) :
    Option Text × Number :=
  match latencies name with
  | some delay => if delay.lt best.2 then (some name, delay) else best
  | none => best

/-- The name that the loop ends with. -/
def fastest (latencies : Text → Option Number) (supported : List Text) : Option Text :=
  (supported.foldl (faster latencies) (none, .infinity false)).1

/-- The automatic choice: the best supported name with `url-test`, otherwise the first supported
name, otherwise the first of all. -/
def automatic (groupType : Text) (latencies : Text → Option Number)
    (supported names : List Text) : Option Text :=
  match if groupType = "url-test".toList then fastest latencies supported else none with
  | some name => some name
  | none =>
      match supported with
      | name :: _ => some name
      | [] => names.head?

/-- `#resolveNode()`. A latency is none where it is not a number. -/
def resolveNode (proxies : List Node) (selected : Option Text) (groupType : Text)
    (latencies : Text → Option Number) : Option Node :=
  let map := nodeMap proxies
  let names := map.keys
  if names.length = 0 then none
  else
    match selected.filter map.has with
    | some name => map.get name
    | none =>
        let supported := names.filter fun name => (map.get name).any (isSupported cases)
        (automatic groupType latencies supported names).bind map.get

/-- The nodes of the map, in its order. -/
def nodes (proxies : List Node) : List Node := (nodeMap proxies).entries.map Prod.snd

end Manager

/-! ## What is picked -/

/-- A turn takes a smaller latency, and leaves the best otherwise. -/
theorem faster_cases (latencies : Text → Option Number) (best : Option Text × Number)
    (name : Text) :
    (∃ delay, latencies name = some delay ∧ delay.lt best.2 = true ∧
      faster latencies best name = (some name, delay)) ∨
    (∀ delay, latencies name = some delay → delay.lt best.2 = false) ∧
      faster latencies best name = best := by
  unfold faster
  cases hname : latencies name with
  | none => exact .inr ⟨fun _ h => absurd h (Option.some_ne_none _).symm, rfl⟩
  | some delay =>
      by_cases hlt : delay.lt best.2 = true
      · exact .inl ⟨delay, rfl, hlt, if_pos hlt⟩
      · refine .inr ⟨fun d hd => ?_, if_neg hlt⟩
        rw [← Option.some.inj hd]
        exact eq_false_of_ne_true hlt

/-- The best name is one that has been looked at. -/
theorem best_mem {latencies : Text → Option Number} {names : List Text}
    {best : Option Text × Number} {name : Text}
    (h : (names.foldl (faster latencies) best).1 = some name) :
    name ∈ names ∨ best.1 = some name := by
  induction names generalizing best with
  | nil => exact .inr h
  | cons n names ih =>
      rcases ih h with hmem | hbest
      · exact .inl (List.mem_cons_of_mem _ hmem)
      · rcases faster_cases latencies best n with ⟨delay, -, -, hnew⟩ | ⟨-, hold⟩
        · rw [hnew] at hbest
          obtain rfl := Option.some.inj hbest
          exact .inl List.mem_cons_self
        · rw [hold] at hbest
          exact .inr hbest

section Choice
variable {cases : CaseMap} {proxies : List Node}

/-- The entries of the map whose node is supported. -/
def supportedEntries (cases : CaseMap) (proxies : List Node) : List (Text × Node) :=
  (nodeMap proxies).entries.filter fun e => isSupported cases e.2

theorem supported_names :
    ((nodeMap proxies).keys.filter fun name =>
      ((nodeMap proxies).get name).any (isSupported cases)) =
      (supportedEntries cases proxies).map Prod.fst :=
  (nodeMap proxies).filter_keys fun node => node.any (isSupported cases)

theorem supported_nodes :
    (nodes proxies).filter (isSupported cases) = (supportedEntries cases proxies).map Prod.snd := by
  rw [nodes, List.filter_map]
  rfl

theorem get_supported {e : Text × Node} (h : e ∈ supportedEntries cases proxies) :
    (nodeMap proxies).get e.1 = some e.2 :=
  OrderedMap.get_of_mem (List.mem_of_mem_filter h)

theorem automatic_nil (groupType : Text) (latencies : Text → Option Number)
    (names : List Text) : automatic groupType latencies [] names = names.head? := by
  have hnone : fastest latencies [] = none := rfl
  unfold automatic
  rw [hnone, ite_self]

/-- A supported name is chosen, and the first of them unless the group is `url-test`. -/
theorem automatic_cons (groupType : Text) (latencies : Text → Option Number) (first : Text)
    (rest names : List Text) :
    ∃ name ∈ first :: rest,
      automatic groupType latencies (first :: rest) names = some name ∧
        (groupType ≠ "url-test".toList → name = first) := by
  unfold automatic
  by_cases hg : groupType = "url-test".toList
  · rw [if_pos hg]
    cases hbest : fastest latencies (first :: rest) with
    | none => exact ⟨first, List.mem_cons_self, rfl, fun _ => rfl⟩
    | some name =>
        exact ⟨name, (best_mem hbest).resolve_right nofun, rfl, fun hne => absurd hg hne⟩
  · rw [if_neg hg]
    exact ⟨first, List.mem_cons_self, rfl, fun _ => rfl⟩

/-- The choice when no node is selected by hand. -/
theorem resolveNode_auto {selected : Option Text} {groupType : Text}
    {latencies : Text → Option Number} (hsel : selected.filter (nodeMap proxies).has = none) :
    resolveNode cases proxies selected groupType latencies =
      (automatic groupType latencies ((supportedEntries cases proxies).map Prod.fst)
        (nodeMap proxies).keys).bind (nodeMap proxies).get := by
  unfold resolveNode
  simp only [hsel, supported_names]
  by_cases h : (nodeMap proxies).keys.length = 0
  · have hkeys : (nodeMap proxies).keys = [] := List.length_eq_zero_iff.mp h
    have hentries : (nodeMap proxies).entries = [] := List.map_eq_nil_iff.mp hkeys
    rw [if_pos h, supportedEntries, hentries, hkeys, List.filter_nil, List.map_nil,
      automatic_nil]
    rfl
  · exact if_neg h

/-- Where no node is supported, the first node of all is picked. -/
theorem resolveNode_unsupported {selected : Option Text} {groupType : Text}
    {latencies : Text → Option Number} (hsel : selected.filter (nodeMap proxies).has = none)
    (h : supportedEntries cases proxies = []) :
    resolveNode cases proxies selected groupType latencies = (nodes proxies).head? := by
  rw [resolveNode_auto hsel, h, List.map_nil, automatic_nil, OrderedMap.keys, nodes]
  cases he : (nodeMap proxies).entries with
  | nil => rfl
  | cons e rest => exact OrderedMap.get_of_mem (he ▸ List.mem_cons_self)

/-- Otherwise a supported node is picked, and the first of them unless the group is
`url-test`. -/
theorem resolveNode_supported {selected : Option Text} {groupType : Text}
    {latencies : Text → Option Number} (hsel : selected.filter (nodeMap proxies).has = none)
    {first : Text × Node} {rest : List (Text × Node)}
    (h : supportedEntries cases proxies = first :: rest) :
    ∃ e ∈ first :: rest,
      resolveNode cases proxies selected groupType latencies = some e.2 ∧
        (groupType ≠ "url-test".toList → e = first) := by
  obtain ⟨name, hname, hauto, hfirst⟩ := automatic_cons groupType latencies first.1
    (rest.map Prod.fst) (nodeMap proxies).keys
  rw [resolveNode_auto hsel, h, List.map_cons, hauto]
  by_cases hg : groupType = "url-test".toList
  · obtain ⟨e, he, rfl⟩ := List.mem_map.mp (List.map_cons ▸ hname)
    exact ⟨e, he, get_supported (h ▸ he), fun hne => absurd hg hne⟩
  · rw [hfirst hg]
    exact ⟨first, List.mem_cons_self, get_supported (h ▸ List.mem_cons_self), fun _ => rfl⟩

end Choice

/-- A node without transport options. -/
def plainNode (name type : Text) : Node := .object (some name) (.string type) {} {}

end DshClashProxy.Core.AutoNode
