import DshClashProxy.Core.AutoNode
import DshClashProxy.Core.Subscription
import DshClashProxy.Lib.Distinct

/-!
# Groups

`#groups` lists the groups of the subscription for the page, behind a group `AUTO` that it makes
up itself. Which node answers the traffic is decided by `#resolveNode`. With `url-test` the name
shown is taken from there. Otherwise it is the selection, or the first name of all, whether or
not the map has such a node and the manager supports it.
-/
namespace DshClashProxy.Core.Groups

open Js Js.Text AutoNode Subscription

/-! ## Nodes -/

mutual

/-- `String(value)` -/
def toText : Value → Text
  | .undefined => "undefined".toList
  | .null => "null".toList
  | .bool b => (if b then "true" else "false").toList
  | .number x => x.toText
  | .string s => s
  | .sequence items => [','].intercalate (joined items)
  | .mapping _ => "[object Object]".toList
  | .object text => text

/-- What `join` makes of the elements: nothing of `undefined` and `null`. -/
def joined : List Value → List Text
  | [] => []
  | .undefined :: rest => [] :: joined rest
  | .null :: rest => [] :: joined rest
  | item :: rest => toText item :: joined rest

end

/-- `String(value ?? other)`, none where the other value is taken. -/
def given (value : Value) : Option Text :=
  match value with
  | .undefined => none
  | .null => none
  | value => some (toText value)

def typeValue : Value → TypeValue
  | .undefined => .undefined
  | .null => .null
  | .string s => .string s
  | value => .other (toText value)

/-- A proxy of the subscription, with the fields of it that are looked at. -/
def nodeOf (proxy : Value) : Node :=
  match proxy with
  | .string uri => .bare uri
  | proxy =>
      .object (proxy.field "name".toList).text? (typeValue (proxy.field "type".toList))
        { cipher := given (proxy.field "cipher".toList)
          password := given (proxy.field "password".toList) }
        { uuid := given (proxy.field "uuid".toList)
          flow := given (proxy.field "flow".toList)
          realityOpts := (given (proxy.field "reality-opts".toList)).isSome }

/-! ## Groups -/

/-- The members of a group that are kept. -/
def isMember (names : List Text) (member : Value) : Bool :=
  match member with
  | .string s => names.contains s || s = "DIRECT".toList || s = "REJECT".toList
  | _ => false

/-- `{ ...group, proxies: members }`. Only a mapping has members. -/
def withProxies (group : Value) (members : List Value) : Value :=
  match group with
  | .mapping entries => .mapping (OrderedMap.put "proxies".toList (.sequence members) entries)
  | group => group

/-- The turn of the loop for a group; none where it is left out. -/
def sanitizeGroup (names : List Text) (group : Value) : Option Value :=
  let members := (group.field "proxies".toList).items.filter (isMember names)
  if !group.isObject || members.length = 0 then none else some (withProxies group members)

def sanitizeGroups (groups : List Value) (names : List Text) : List Value :=
  groups.filterMap (sanitizeGroup names)

def groupTypes : List Text := ["select", "url-test", "fallback", "load-balance"].map String.toList

/-- What the manager knows when it picks a node. A latency is none where it is not a number. -/
structure State where
  parsed : Option Parsed
  selected : Option Text
  groupType : Text
  latencies : Text → Option Number

/-- A group as the page gets it. -/
structure Group where
  name : Value
  type : Value
  now : Value
  all : Value

def auto : Text := "AUTO".toList

/-- `group.proxies?.[0]` -/
def firstMember (group : Value) : Value :=
  (group.field "proxies".toList).items.head?.getD .undefined

section Manager
variable (cases : CaseMap) (s : State)

def State.proxies : List Node := s.parsed.elim [] fun parsed => parsed.proxies.map nodeOf

/-- `#resolveNode()` -/
def State.resolveNode : Option Node :=
  AutoNode.resolveNode cases s.proxies s.selected s.groupType s.latencies

/-- `#currentNodeName(group)`. The nodes of the map have strings for names. -/
def State.currentNodeName (group : Value) : Value :=
  if (group.field "type".toList).text? = some "url-test".toList then
    match s.resolveNode cases with
    | none => .null
    | some node => node.name.elim .undefined .string
  else ((s.selected.elim .null .string : Value).orElse (firstMember group)).orElse .null

/-- The group that is put in front. -/
def State.autoGroup (names : List Text) : Value :=
  .mapping [("name".toList, .string auto), ("type".toList, .string s.groupType),
    ("proxies".toList, .sequence (names.map .string))]

def isAuto (group : Value) : Bool := (group.field "name".toList).text? = some auto

/-- What is shown of a group. -/
def State.shown (group : Value) : Group where
  name := group.field "name".toList
  type := group.field "type".toList
  now :=
    if isAuto group then s.currentNodeName cases group
    else ((group.field "now".toList).orElse (firstMember group)).orElse .null
  all := group.field "proxies".toList

/-- The groups of the subscription that have a type the page knows. -/
def exposed (parsed : Parsed) : List Value :=
  (sanitizeGroups parsed.groups parsed.names).filter fun group =>
    (group.field "type".toList).text?.any groupTypes.contains

/-- `#groups()` -/
def State.groups : List Group :=
  match s.parsed with
  | none => []
  | some parsed =>
      let groups := exposed parsed
      let groups :=
        if !groups.any isAuto && parsed.names.length > 0 then
          s.autoGroup parsed.names :: groups
        else groups
      groups.map (s.shown cases)

/-- The page shows the node that answers the traffic. -/
def State.ShowsResolved : Prop :=
  ∃ node name, s.resolveNode cases = some node ∧ node.name = some name ∧
    (∃ group ∈ s.groups cases, group.name = .string auto) ∧
    ∀ group ∈ s.groups cases, group.name = .string auto → group.now = .string name

/-- With `url-test`, with a selection among the names, or without one where the first node of
the map is supported or none is. -/
def ShownChoice (parsed : Parsed) (selected : Option Text) (groupType : Text) : Prop :=
  groupType = "url-test".toList ∨
    match selected with
    | some name => name ∈ parsed.names
    | none =>
        (∀ node ∈ (nodes (parsed.proxies.map nodeOf)).head?, isSupported cases node = true) ∨
          ∀ node ∈ nodes (parsed.proxies.map nodeOf), isSupported cases node = false

end Manager

/-! ## Names -/

theorem name_nodeOf (proxy : Value) : (nodeOf proxy).name = (proxyName proxy).text? := by
  cases proxy <;> rfl

/-- The name under which a node is found. -/
def mapName (node : Node) : Option Text := node.name.filter fun name => 0 < name.length

/-- One turn of the loop of `#nodeMap`. -/
theorem nodeMap_concat (proxies : List Node) (node : Node) :
    nodeMap (proxies ++ [node]) =
      (mapName node).elim (nodeMap proxies) fun name => (nodeMap proxies).set name node := by
  unfold nodeMap mapName
  rw [List.foldl_append, List.foldl_cons, List.foldl_nil]
  cases node.name with
  | none => rfl
  | some name => by_cases h : 0 < name.length <;> simp [Option.filter, h]

/-- The names of the map are those of the nodes, each once. -/
theorem keys_nodeMap (proxies : List Node) :
    (nodeMap proxies).keys = (proxies.filterMap mapName).eraseDups := by
  induction proxies using List.reverseRecOn with
  | nil => rfl
  | append_singleton proxies node ih =>
      rw [nodeMap_concat, List.filterMap_append]
      cases hname : mapName node with
      | none => simp [hname, ih]
      | some name =>
          have hone : [node].filterMap mapName = [name] := by simp [hname]
          rw [hone, Lib.Distinct.eraseDups_concat, Option.elim_some, OrderedMap.keys_set, ih]
          simp only [List.mem_eraseDups]

/-- A node stands under its own name. -/
theorem name_of_mem {proxies : List Node} {e : Text × Node} (h : e ∈ (nodeMap proxies).entries) :
    e.2.name = some e.1 := by
  induction proxies using List.reverseRecOn with
  | nil => cases h
  | append_singleton proxies node ih =>
      rw [nodeMap_concat] at h
      cases hname : mapName node with
      | none =>
          rw [hname] at h
          exact ih h
      | some name =>
          rw [hname] at h
          rcases OrderedMap.mem_put h with rfl | h
          · exact (Option.filter_eq_some_iff.mp hname).1
          · exact ih h

/-- So a node stands under one name only. -/
theorem key_of_node {proxies : List Node} {d e : Text × Node}
    (hd : d ∈ (nodeMap proxies).entries) (he : e ∈ (nodeMap proxies).entries)
    (h : d.2 = e.2) : d.1 = e.1 := by
  have hname := name_of_mem hd
  rw [h, name_of_mem he] at hname
  exact (Option.some.inj hname).symm

/-- The names of a document are those under which its nodes are found. -/
theorem names_ofDocument (document : Value) :
    ((ofDocument document).proxies.map nodeOf).filterMap mapName =
      (ofDocument document).names := by
  have hnames : (ofDocument document).names =
      ((ofDocument document).proxies.filterMap fun proxy => (proxyName proxy).text?).filter
        (· ≠ []) := rfl
  rw [hnames, List.filter_filterMap, List.filterMap_map]
  refine List.filterMap_congr fun proxy _ => ?_
  rw [Function.comp_apply, mapName, name_nodeOf]
  refine congrArg (fun p => Option.filter p _) (funext fun name => ?_)
  cases name <;> simp

theorem exists_document {yaml : YamlLoader} {raw : Text} {parsed : Parsed}
    (h : parseSubscription yaml raw = .ok parsed) : ∃ document, parsed = ofDocument document := by
  unfold parseSubscription at h
  dsimp only at h
  split at h
  · next document _ => exact ⟨document, (Except.ok.inj h).symm⟩
  · cases h

/-- A proxy that is kept has a name. -/
theorem names_ne_nil {yaml : YamlLoader} {raw : Text} {parsed : Parsed}
    (hparsed : parseSubscription yaml raw = .ok parsed) (h : parsed.proxies ≠ []) :
    parsed.names ≠ [] := by
  obtain ⟨document, rfl⟩ := exists_document hparsed
  obtain ⟨proxy, rest, hproxies⟩ := List.exists_cons_of_ne_nil h
  have hmem : proxy ∈ (ofDocument document).proxies := hproxies ▸ List.mem_cons_self
  have hkept : isKept proxy = true := (List.mem_filter.mp hmem).2
  unfold isKept at hkept
  split at hkept
  · next name hname =>
      have hne : name ≠ [] := by
        rintro rfl
        simp at hkept
      have hin : name ∈ (ofDocument document).names :=
        List.mem_filter.mpr ⟨List.mem_filterMap.mpr ⟨proxy, hmem, hname⟩, by simpa using hne⟩
      exact List.ne_nil_of_mem hin
  · cases hkept

/-! ## The group AUTO -/

theorem field_put {name key : Text} (h : name ≠ key) (value : Value)
    (entries : List (Text × Value)) :
    (Value.mapping (OrderedMap.put key value entries)).field name =
      (Value.mapping entries).field name := by
  rw [Value.field, Value.field, OrderedMap.find_put h]

theorem name_withProxies (group : Value) (members : List Value) :
    (withProxies group members).field "name".toList = group.field "name".toList := by
  cases group with
  | mapping entries => exact field_put (by decide) _ entries
  | _ => rfl

/-- A group that is shown has the name of a group of the subscription. -/
theorem name_of_exposed {parsed : Parsed} {group : Value} (h : group ∈ exposed parsed) :
    ∃ own ∈ parsed.groups, group.field "name".toList = own.field "name".toList := by
  obtain ⟨own, hown, hgroup⟩ := List.mem_filterMap.mp (List.mem_of_mem_filter h)
  unfold sanitizeGroup at hgroup
  dsimp only at hgroup
  split at hgroup
  · cases hgroup
  · exact ⟨own, hown, Option.some.inj hgroup ▸ name_withProxies own _⟩

theorem isAuto_iff {group : Value} :
    isAuto group = true ↔ group.field "name".toList = .string auto := by
  rw [isAuto, decide_eq_true_iff]
  cases group.field "name".toList <;> simp [Value.text?]

section Shown
variable {cases : CaseMap} {s : State} {parsed : Parsed}

/-- The subscription has no group of the name. -/
def NoOwnAuto (parsed : Parsed) : Prop :=
  ∀ group ∈ parsed.groups, group.field "name".toList ≠ .string auto

theorem not_isAuto (hown : NoOwnAuto parsed) {group : Value} (h : group ∈ exposed parsed) :
    isAuto group = false := by
  obtain ⟨own, hmem, hname⟩ := name_of_exposed h
  exact eq_false_of_ne_true fun hauto => hown own hmem (hname ▸ isAuto_iff.mp hauto)

theorem groups_eq (hs : s.parsed = some parsed) (hown : NoOwnAuto parsed)
    (hnames : parsed.names ≠ []) :
    s.groups cases = (s.autoGroup parsed.names :: exposed parsed).map (s.shown cases) := by
  have hnone : (exposed parsed).any isAuto = false :=
    List.any_eq_false.mpr fun group h => Bool.eq_false_iff.mp (not_isAuto hown h)
  have hpos : 0 < parsed.names.length := List.length_pos_iff.mpr hnames
  unfold State.groups
  simp only [hs, hnone, hpos, Bool.not_false, Bool.true_and, decide_true, if_true]

/-- The only group of the name is the one in front. -/
theorem showsResolved_iff (hs : s.parsed = some parsed) (hown : NoOwnAuto parsed)
    (hnames : parsed.names ≠ []) :
    s.ShowsResolved cases ↔ ∃ node name, s.resolveNode cases = some node ∧
      node.name = some name ∧
      s.currentNodeName cases (s.autoGroup parsed.names) = .string name := by
  unfold State.ShowsResolved
  rw [groups_eq hs hown hnames, List.map_cons]
  constructor
  · rintro ⟨node, name, hnode, hname, -, hnow⟩
    exact ⟨node, name, hnode, hname, hnow _ List.mem_cons_self rfl⟩
  · rintro ⟨node, name, hnode, hname, hnow⟩
    refine ⟨node, name, hnode, hname, ⟨_, List.mem_cons_self, rfl⟩, fun group hgroup hauto => ?_⟩
    rcases List.mem_cons.mp hgroup with rfl | hgroup
    · exact hnow
    · obtain ⟨own, hmem, rfl⟩ := List.mem_map.mp hgroup
      exact absurd (isAuto_iff.mpr hauto) (Bool.eq_false_iff.mp (not_isAuto hown hmem))

/-- With `url-test` the name is that of the node. -/
theorem currentNodeName_urlTest (hg : s.groupType = "url-test".toList) {node : Node}
    (hnode : s.resolveNode cases = some node) {name : Text} (hname : node.name = some name)
    (names : List Text) : s.currentNodeName cases (s.autoGroup names) = .string name := by
  have htype : ((s.autoGroup names).field "type".toList).text? = some "url-test".toList :=
    congrArg some hg
  simp only [State.currentNodeName, htype, if_true, hnode, hname, Option.elim_some]

/-- Otherwise it is the selection, or the first name. -/
theorem currentNodeName_other (hg : s.groupType ≠ "url-test".toList) (first : Text)
    (rest : List Text) :
    s.currentNodeName cases (s.autoGroup (first :: rest)) =
      .string (s.selected.getD first) := by
  have htype : ((s.autoGroup (first :: rest)).field "type".toList).text? ≠
      some "url-test".toList := fun h => hg (Option.some.inj h)
  rw [State.currentNodeName, if_neg htype]
  cases s.selected <;> rfl

end Shown

/-! ## The node -/

section Resolved
variable {cases : CaseMap} {proxies : List Node} {selected : Option Text} {groupType : Text}
  {latencies : Text → Option Number}

/-- A selected node is the one returned. -/
theorem resolveNode_selected {name : Text} (h : name ∈ (nodeMap proxies).keys) :
    AutoNode.resolveNode cases proxies (some name) groupType latencies =
      (nodeMap proxies).get name := by
  have hhas : (some name).filter (nodeMap proxies).has = some name := by
    simp [Option.filter, OrderedMap.has, h]
  have hlength : (nodeMap proxies).keys.length ≠ 0 :=
    Nat.ne_of_gt (List.length_pos_of_mem h)
  unfold AutoNode.resolveNode
  simp only [hhas, if_neg hlength]

/-- Without a selection, and unless the group is `url-test`, the first supported node is
returned, or the first of all. -/
theorem resolveNode_find (hsel : selected.filter (nodeMap proxies).has = none)
    (hg : groupType ≠ "url-test".toList) :
    AutoNode.resolveNode cases proxies selected groupType latencies =
      ((nodes proxies).find? (isSupported cases)).or (nodes proxies).head? := by
  rw [← List.head?_filter, supported_nodes]
  cases h : supportedEntries cases proxies with
  | nil => exact resolveNode_unsupported hsel h
  | cons first rest =>
      obtain ⟨e, -, hpicked, hfirst⟩ :=
        @resolveNode_supported cases proxies selected groupType latencies hsel first rest h
      rw [hpicked, hfirst hg]
      rfl

/-- Where there are nodes, one of them is returned. -/
theorem resolveNode_mem (h : (nodeMap proxies).entries ≠ []) :
    ∃ e ∈ (nodeMap proxies).entries,
      AutoNode.resolveNode cases proxies selected groupType latencies = some e.2 := by
  by_cases hsel : selected.filter (nodeMap proxies).has = none
  · cases hs : supportedEntries cases proxies with
    | nil =>
        obtain ⟨e, rest, he⟩ := List.exists_cons_of_ne_nil h
        refine ⟨e, he ▸ List.mem_cons_self, ?_⟩
        rw [resolveNode_unsupported hsel hs, nodes, he]
        rfl
    | cons first rest =>
        obtain ⟨e, he, hpicked, -⟩ :=
          @resolveNode_supported cases proxies selected groupType latencies hsel first rest hs
        exact ⟨e, List.mem_of_mem_filter (hs ▸ he), hpicked⟩
  · obtain ⟨name, hname⟩ := Option.ne_none_iff_exists'.mp hsel
    obtain ⟨rfl, hhas⟩ := Option.filter_eq_some_iff.mp hname
    have hmem : name ∈ (nodeMap proxies).keys := by simpa [OrderedMap.has] using hhas
    obtain ⟨e, he, rfl⟩ := List.mem_map.mp hmem
    exact ⟨e, he, (resolveNode_selected hmem).trans (OrderedMap.get_of_mem he)⟩

end Resolved

/-! ## What is shown -/

section Main
variable {cases : CaseMap} {s : State} {parsed : Parsed}

/-- What is shown is right when the name is the one the node returned stands under. -/
theorem showsResolved_of_entry (hs : s.parsed = some parsed) (hown : NoOwnAuto parsed)
    (hnames : parsed.names ≠ []) {e : Text × Node} (he : e ∈ (nodeMap s.proxies).entries)
    (hnode : s.resolveNode cases = some e.2) :
    s.ShowsResolved cases ↔
      s.currentNodeName cases (s.autoGroup parsed.names) = .string e.1 := by
  have hname := name_of_mem he
  rw [showsResolved_iff hs hown hnames]
  constructor
  · rintro ⟨node, name, hresolved, hnamed, hnow⟩
    obtain rfl : e.2 = node := Option.some.inj (hnode.symm.trans hresolved)
    rw [hnow, Option.some.inj (hname.symm.trans hnamed)]
  · exact fun hnow => ⟨e.2, e.1, hnode, hname, hnow⟩

/-- Without a selection the first name of all is shown, and it is that of the node returned if
the first node of the map is supported, or none is. -/
theorem first_iff {first : Text × Node} {rest : List (Text × Node)}
    (hentries : (nodeMap s.proxies).entries = first :: rest) {e : Text × Node}
    (he : e ∈ (nodeMap s.proxies).entries)
    (hnode : ((nodes s.proxies).find? (isSupported cases)).or (nodes s.proxies).head? =
      some e.2) :
    first.1 = e.1 ↔
      (∀ node ∈ (nodes s.proxies).head?, isSupported cases node = true) ∨
        ∀ node ∈ nodes s.proxies, isSupported cases node = false := by
  have hnodes : nodes s.proxies = first.2 :: rest.map Prod.snd := by rw [nodes, hentries]; rfl
  have hfirst : first ∈ (nodeMap s.proxies).entries := hentries ▸ List.mem_cons_self
  rw [hnodes] at hnode ⊢
  by_cases hsupported : isSupported cases first.2 = true
  · rw [List.find?_cons_of_pos hsupported] at hnode
    refine iff_of_true (key_of_node hfirst he (Option.some.inj hnode)) (.inl fun node hn => ?_)
    exact Option.some.inj hn ▸ hsupported
  · rw [List.find?_cons_of_neg hsupported] at hnode
    cases hfind : (rest.map Prod.snd).find? (isSupported cases) with
    | none =>
        rw [hfind] at hnode
        refine iff_of_true (key_of_node hfirst he (Option.some.inj hnode)) (.inr fun node hn => ?_)
        rcases List.mem_cons.mp hn with rfl | hn
        · exact Bool.eq_false_iff.mpr hsupported
        · exact Bool.eq_false_iff.mpr (List.find?_eq_none.mp hfind node hn)
    | some node =>
        rw [hfind] at hnode
        obtain ⟨later, hlater, rfl⟩ := List.mem_map.mp (List.mem_of_find?_eq_some hfind)
        have hlaterKey : later.1 = e.1 :=
          key_of_node (hentries ▸ .tail first hlater) he (Option.some.inj hnode)
        have hnodup := (nodeMap s.proxies).nodup
        rw [hentries, List.map_cons, List.nodup_cons] at hnodup
        refine iff_of_false (fun hsame => hnodup.1 ?_)
          (not_or.mpr ⟨fun hhead => ?_, fun hnone => ?_⟩)
        · rw [hsame, ← hlaterKey]
          exact List.mem_map_of_mem hlater
        · exact hsupported (hhead first.2 rfl)
        · have hfalse := hnone later.2 (.tail _ (List.mem_map_of_mem hlater))
          rw [List.find?_some hfind] at hfalse
          cases hfalse

/-- A selection is shown as it is, and it is the node returned if it is among the names. -/
theorem selected_iff {selected : Text} {e : Text × Node} (he : e ∈ (nodeMap s.proxies).entries)
    (hnode : AutoNode.resolveNode cases s.proxies (some selected) s.groupType s.latencies =
      some e.2) :
    selected = e.1 ↔ selected ∈ (nodeMap s.proxies).keys := by
  constructor
  · rintro rfl
    exact List.mem_map_of_mem he
  · intro hkey
    obtain ⟨d, hd, rfl⟩ := List.mem_map.mp hkey
    rw [resolveNode_selected hkey, OrderedMap.get_of_mem hd] at hnode
    exact key_of_node hd he (Option.some.inj hnode)

theorem keys_of_parse {yaml : YamlLoader} {raw : Text}
    (hparsed : parseSubscription yaml raw = .ok parsed) :
    (nodeMap (parsed.proxies.map nodeOf)).keys = parsed.names.eraseDups := by
  obtain ⟨document, rfl⟩ := exists_document hparsed
  rw [keys_nodeMap, names_ofDocument]

/-- For a parsed subscription with a node and without a group `AUTO` of its own, the page shows
the node that answers the traffic exactly with `url-test`, with a selection among the names, or
without a selection where the first node of the map is supported or none is. -/
theorem auto_now_iff {yaml : YamlLoader} {raw : Text}
    (hparsed : parseSubscription yaml raw = .ok parsed) (hne : parsed.proxies ≠ [])
    (hown : NoOwnAuto parsed) (hs : s.parsed = some parsed) :
    s.ShowsResolved cases ↔ ShownChoice cases parsed s.selected s.groupType := by
  have hproxies : s.proxies = parsed.proxies.map nodeOf := by
    rw [State.proxies, hs]
    rfl
  have hkeys := keys_of_parse hparsed
  rw [← hproxies] at hkeys
  have hnames := names_ne_nil hparsed hne
  obtain ⟨name, rest, hfirst⟩ := List.exists_cons_of_ne_nil hnames
  obtain ⟨first, others, hentries⟩ : ∃ first others,
      (nodeMap s.proxies).entries = first :: others := by
    refine List.exists_cons_of_ne_nil fun hnil => ?_
    rw [OrderedMap.keys, hnil, hfirst, List.eraseDups_cons] at hkeys
    cases hkeys
  have hhead : first.1 = name := by
    rw [OrderedMap.keys, hentries, hfirst, List.eraseDups_cons] at hkeys
    exact (List.cons.inj hkeys).1
  obtain ⟨e, he, hnode⟩ := @resolveNode_mem cases s.proxies s.selected s.groupType s.latencies
    (hentries ▸ List.cons_ne_nil first others)
  rw [showsResolved_of_entry hs hown hnames he hnode]
  unfold ShownChoice
  by_cases hg : s.groupType = "url-test".toList
  · exact iff_of_true (currentNodeName_urlTest hg hnode (name_of_mem he) _) (.inl hg)
  · rw [hfirst, currentNodeName_other hg, Value.string.injEq, or_iff_right hg]
    cases hsel : s.selected with
    | none =>
        have hnosel : s.selected.filter (nodeMap s.proxies).has = none := by rw [hsel]; rfl
        rw [resolveNode_find hnosel hg] at hnode
        rw [← hproxies, Option.getD_none, ← hhead]
        exact first_iff hentries he hnode
    | some selected =>
        rw [hsel] at hnode
        rw [Option.getD_some, selected_iff he hnode, hkeys, List.mem_eraseDups, hfirst]

end Main

/-! ### A subscription -/

/-- Two nodes. The manager does not support the first. -/
def twoNodes : Text := "proxies: [{name: a, type: tuic}, {name: b, type: trojan}]".toList

def twoProxies : Value :=
  .mapping [("proxies".toList, .sequence
    [.mapping [("name".toList, .string "a".toList), ("type".toList, .string "tuic".toList)],
      .mapping [("name".toList, .string "b".toList), ("type".toList, .string "trojan".toList)]])]

/-- A loader for this body. -/
def twoNodesLoader : YamlLoader where
  load s := if s = twoNodes then .ok twoProxies else .ok .undefined
  load_empty := rfl

theorem two_nodes_parsed :
    parseSubscription twoNodesLoader twoNodes = .ok (ofDocument twoProxies) := rfl

/-- Nothing is selected and nothing has been measured. -/
def State.fresh (groupType : Text) : State where
  parsed := some (ofDocument twoProxies)
  selected := none
  groupType := groupType
  latencies := fun _ => none

theorem two_nodes_shown : (State.fresh "url-test".toList).ShowsResolved .ascii :=
  (auto_now_iff two_nodes_parsed (List.cons_ne_nil _ _)
    (fun _ h => absurd h List.not_mem_nil) rfl).mpr (.inl rfl)

/-- The page shows the first node, and the second answers the traffic. -/
theorem unsupported_shown :
    ¬ ∀ (cases : CaseMap) (yaml : YamlLoader) (raw : Text) (parsed : Parsed) (s : State),
      parseSubscription yaml raw = .ok parsed → parsed.proxies ≠ [] → NoOwnAuto parsed →
      s.parsed = some parsed →
      s.groupType ∈ ["url-test", "select", "fallback"].map String.toList →
      s.ShowsResolved cases := by
  intro h
  obtain ⟨node, name, hnode, hname, -, hnow⟩ := h .ascii twoNodesLoader twoNodes _
    (State.fresh "select".toList) two_nodes_parsed (List.cons_ne_nil _ _)
    (fun _ h => absurd h List.not_mem_nil) rfl (by decide)
  have hgroup : (State.fresh "select".toList).groups .ascii =
      [{ name := .string auto, type := .string "select".toList, now := .string "a".toList
         all := .sequence [.string "a".toList, .string "b".toList] }] := rfl
  have hresolved : (State.fresh "select".toList).resolveNode .ascii =
      some (plainNode "b".toList "trojan".toList) := rfl
  rw [hresolved] at hnode
  have ha : Value.string "a".toList = .string name := hnow _ (hgroup ▸ List.mem_cons_self) rfl
  rw [← Option.some.inj hnode, ← Value.string.inj ha] at hname
  exact absurd hname (by decide)

end DshClashProxy.Core.Groups
