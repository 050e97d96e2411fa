import DshClashProxy.Go.Base64
import DshClashProxy.Js.Numeral

/-!
# The node handed to the connector

`nativeConnect` hands the connector a node as base64 of JSON. The fields keep the types that YAML
gave them, while the connector decodes most of them as strings, and it rejects a number or a
boolean there.
-/
namespace DshClashProxy.Core.NodeArgument

open Js Lib

/-! ## The sending side -/

/-- A scalar of a YAML document. -/
inductive Scalar where
  | text (s : Text)
  | number (x : Number)
  | bool (b : Bool)
  deriving DecidableEq

structure RealityOpts where
  publicKey : Option Scalar := none
  shortId : Option Scalar := none

/-- The fields of a node that the connector is given; none is an undefined field. -/
structure Node where
  type : Option Scalar := none
  server : Option Scalar := none
  port : Option Scalar := none
  password : Option Scalar := none
  sni : Option Scalar := none
  skipCertVerify : Option Scalar := none
  ports : Option Scalar := none
  uuid : Option Scalar := none
  flow : Option Scalar := none
  servername : Option Scalar := none
  realityOpts : Option RealityOpts := none
  clientFingerprint : Option Scalar := none

/-- `Number(value)`. -/
def toNumber : Option Scalar → Number
  | none => .nan
  | some (.text s) => Number.ofText s
  | some (.number x) => x
  | some (.bool b) => if b then 1 else 0

/-- `String(value)`. -/
def Scalar.toText : Scalar → Text
  | text s => s
  | number x => x.toText
  | bool b => (if b then "true" else "false").toList

/-- The scalar in JSON, which has no NaN and no infinities. -/
def Scalar.toJson : Scalar → Json.Scalar
  | text s => .string s
  | number (.finite q) => .number (Number.numeral q)
  | number _ => .null
  | bool b => .bool b

def payload (node : Node) : List (Text × Option Scalar) := [
  ("type".toList, node.type),
  ("server".toList, node.server),
  ("port".toList, some (.number (toNumber node.port))),
  ("password".toList, node.password),
  ("sni".toList, node.sni),
  ("skip-cert-verify".toList, some (.bool (node.skipCertVerify = some (.bool true)))),
  ("ports".toList, node.ports),
  ("uuid".toList, node.uuid),
  ("flow".toList, node.flow),
  ("servername".toList, node.servername),
  ("public-key".toList, node.realityOpts.bind RealityOpts.publicKey),
  ("short-id".toList, node.realityOpts.bind RealityOpts.shortId),
  ("client-fingerprint".toList, node.clientFingerprint)]

/-- `JSON.stringify(members)`: undefined members are left out. -/
def stringify (members : List (Text × Option Scalar)) : Text :=
  Json.objectText (members.filterMap fun m => m.2.map fun v => (m.1, v.toJson))

/-- The argument of the connector. -/
def nodeB64 (node : Node) : Text := Bytes.base64 (Bytes.utf8Encode (stringify (payload node)))

/-! ## The connector -/

inductive StringField where
  | type
  | server
  | password
  | sni
  | ports
  | uuid
  | flow
  | serverName
  | publicKey
  | shortID
  | fingerprint
  deriving DecidableEq

structure NodeConfig where
  strings : StringField → Text := fun _ => []
  port : Int := 0
  skipCertVerify : Bool := false

/-- A field of `NodeConfig`, by its type. -/
inductive Field where
  | string (f : StringField)
  | port
  | skipCertVerify
  deriving DecidableEq

/-- The name in the field's JSON tag. -/
def Field.tag : Field → Text
  | string .type => "type".toList
  | string .server => "server".toList
  | port => "port".toList
  | string .password => "password".toList
  | string .sni => "sni".toList
  | skipCertVerify => "skip-cert-verify".toList
  | string .ports => "ports".toList
  | string .uuid => "uuid".toList
  | string .flow => "flow".toList
  | string .serverName => "servername".toList
  | string .publicKey => "public-key".toList
  | string .shortID => "short-id".toList
  | string .fingerprint => "client-fingerprint".toList

/-- The fields in their order. -/
def fields : List Field := [.string .type, .string .server, .port, .string .password, .string .sni,
  .skipCertVerify, .string .ports, .string .uuid, .string .flow, .string .serverName,
  .string .publicKey, .string .shortID, .string .fingerprint]

/-- Letters as they are compared when no name matches exactly. -/
def fold (c : Char) : Char :=
  if c = '\u017f' then 'S' else if c = '\u212a' then 'K' else c.toUpper

/-- The field that a key names. -/
def fieldOf (key : Text) : Option Field :=
  (fields.find? fun f => f.tag = key).or (fields.find? fun f => f.tag.map fold = key.map fold)

/-- `strconv.ParseInt(s, 10, 64)`. -/
def parseInt (s : Text) : Option Int :=
  let (negative, digits) := Number.splitSign s
  let n := Nat.ofDigitChars 10 digits 0
  if digits.isEmpty || !digits.all Char.isDigit then none
  else if negative then (if n ≤ 2 ^ 63 then some (-n) else none)
  else if n < 2 ^ 63 then some n
  else none

inductive UnmarshalError where
  | malformed
  /-- `cannot unmarshal <value> into Go struct field NodeConfig.<field>`. -/
  | type (value field : Text)
  deriving DecidableEq

/-- The kind of a value, as errors name it. -/
def kind : Json.Value → Text
  | .null => "null".toList
  | .bool _ => "bool".toList
  | .number _ => "number".toList
  | .string _ => "string".toList
  | .array _ => "array".toList
  | .object _ => "object".toList

/-- A value is stored in a field of its type, and null in none. -/
def assign (config : NodeConfig) (field : Field) : Json.Value → Except UnmarshalError NodeConfig
  | .null => .ok config
  | .string s => match field with
    | .string f => .ok { config with strings := Function.update config.strings f s }
    | _ => .error (.type (kind (.string s)) field.tag)
  | .number literal => match field with
    | .port => match parseInt literal with
      | some n => .ok { config with port := n }
      | none => .error (.type ("number ".toList ++ literal) field.tag)
    | _ => .error (.type (kind (.number literal)) field.tag)
  | .bool b => match field with
    | .skipCertVerify => .ok { config with skipCertVerify := b }
    | _ => .error (.type (kind (.bool b)) field.tag)
  | value => .error (.type (kind value) field.tag)

/-- The members in their order. The first error is kept while decoding goes on. -/
def decodeMembers (config : NodeConfig) (saved : Option UnmarshalError) :
    List (Text × Json.Value) → NodeConfig × Option UnmarshalError
  | [] => (config, saved)
  | (key, value) :: rest =>
      match fieldOf key with
      | none => decodeMembers config saved rest
      | some field =>
          match assign config field value with
          | .ok config => decodeMembers config saved rest
          | .error e => decodeMembers config (saved.or (some e)) rest

/-- `json.Unmarshal(raw, &node)`. -/
def unmarshal (raw : Bytes) : Except UnmarshalError NodeConfig :=
  match Json.read (Bytes.utf8Decode raw) with
  | none => .error .malformed
  | some (.object members) =>
      match decodeMembers {} none members with
      | (config, none) => .ok config
      | (_, some e) => .error e
  | some .null => .ok {}
  | some value => .error (.type (kind value) [])

inductive Failure where
  /-- `bad node: %v`. -/
  | node
  /-- `bad node json: %v`. -/
  | nodeJson (e : UnmarshalError)
  deriving DecidableEq

/-- The part of `main` that decodes the node. -/
def nodeOf (argument : Text) : Except Failure NodeConfig :=
  match Go.Base64.decodeString argument with
  | none => .error .node
  | some raw => (unmarshal raw).mapError .nodeJson

/-! ## What a node is decoded to -/

/-- The node's value for a string field. -/
def StringField.of (node : Node) : StringField → Option Scalar
  | type => node.type
  | server => node.server
  | password => node.password
  | sni => node.sni
  | ports => node.ports
  | uuid => node.uuid
  | flow => node.flow
  | serverName => node.servername
  | publicKey => node.realityOpts.bind RealityOpts.publicKey
  | shortID => node.realityOpts.bind RealityOpts.shortId
  | fingerprint => node.clientFingerprint

/-- The configuration says what the node says. -/
structure Decoded (node : Node) (port : Int) (config : NodeConfig) : Prop where
  strings : ∀ f, config.strings f = ((f.of node).map Scalar.toText).getD []
  port : config.port = port
  skipCertVerify : config.skipCertVerify = true ↔ node.skipCertVerify = some (.bool true)

/-- What the payload has for a field. -/
def Field.source (node : Node) : Field → Option Scalar
  | string f => f.of node
  | port => some (.number (toNumber node.port))
  | skipCertVerify => some (.bool (node.skipCertVerify = some (.bool true)))

theorem payload_eq (node : Node) : payload node = fields.map fun f => (f.tag, f.source node) := rfl

theorem fieldOf_tag (f : Field) : fieldOf f.tag = some f := by
  rcases f with f | _ | _
  · cases f <;> decide
  · decide
  · decide

theorem mem_fields (f : Field) : f ∈ fields := by
  rcases f with f | _ | _
  · cases f <;> decide
  · decide
  · decide

/-- The members that fields have values for. -/
def members (value : Field → Option Json.Value) (fs : List Field) : List (Text × Json.Value) :=
  fs.filterMap fun f => (value f).map fun v => (f.tag, v)

theorem unmarshal_stringify (node : Node) :
    nodeOf (nodeB64 node) =
      match decodeMembers {} none
          (members (fun f => (f.source node).map fun v => v.toJson.value) fields) with
      | (config, none) => .ok config
      | (_, some e) => .error (.nodeJson e) := by
  have hmembers : (((payload node).filterMap fun m => m.2.map fun v => (m.1, v.toJson)).map
      fun m => (m.1, m.2.value)) =
        members (fun f => (f.source node).map fun v => v.toJson.value) fields := by
    rw [payload_eq, List.filterMap_map, List.map_filterMap, members]
    refine List.filterMap_congr fun f _ => ?_
    simp only [Function.comp_apply, Option.map_map]
    rfl
  rw [nodeOf, nodeB64, Go.Base64.decodeString_base64]
  simp only [unmarshal, Bytes.utf8Decode_utf8Encode, stringify, Json.read_objectText, hmembers]
  rcases decodeMembers {} none _ with ⟨config, _ | e⟩ <;> rfl

/-- The field takes the value. -/
def Accepts (f : Field) : Json.Value → Prop
  | .null => True
  | .string _ => ∃ s, f = .string s
  | .number literal => f = .port ∧ ∃ n, parseInt literal = some n
  | .bool _ => f = .skipCertVerify
  | _ => False

theorem assign_cases (config : NodeConfig) (f : Field) (v : Json.Value) :
    (Accepts f v ∧ ∃ config', assign config f v = .ok config') ∨
      ¬ Accepts f v ∧ ∃ e, assign config f v = .error e := by
  cases v with
  | null => exact .inl ⟨trivial, _, rfl⟩
  | bool b =>
      rcases f with f | _ | _
      · exact .inr ⟨nofun, _, rfl⟩
      · exact .inr ⟨nofun, _, rfl⟩
      · exact .inl ⟨rfl, _, rfl⟩
  | number literal =>
      rcases f with f | _ | _
      · exact .inr ⟨fun h => (by cases h.1), _, rfl⟩
      · cases hn : parseInt literal with
        | none =>
            refine .inr ⟨fun ⟨_, n, h⟩ => ?_, .type _ _, by rw [assign, hn]⟩
            rw [hn] at h
            cases h
        | some n => exact .inl ⟨⟨rfl, n, hn⟩, _, by rw [assign, hn]⟩
      · exact .inr ⟨fun h => (by cases h.1), _, rfl⟩
  | string s =>
      rcases f with f | _ | _
      · exact .inl ⟨⟨f, rfl⟩, _, rfl⟩
      · exact .inr ⟨nofun, _, rfl⟩
      · exact .inr ⟨nofun, _, rfl⟩
  | array _ => exact .inr ⟨id, _, rfl⟩
  | object _ => exact .inr ⟨id, _, rfl⟩

theorem decodeMembers_saved (config : NodeConfig) (e : UnmarshalError)
    (ms : List (Text × Json.Value)) : (decodeMembers config (some e) ms).2 = some e := by
  induction ms generalizing config with
  | nil => rfl
  | cons m rest ih =>
      obtain ⟨key, value⟩ := m
      rw [decodeMembers]
      split
      · exact ih config
      · split
        · exact ih _
        · exact ih _

/-- Decoding succeeds exactly when every field takes its value. -/
theorem decodeMembers_accepts (value : Field → Option Json.Value) (fs : List Field)
    (config : NodeConfig) :
    (decodeMembers config none (members value fs)).2 = none ↔
      ∀ f ∈ fs, ∀ v, value f = some v → Accepts f v := by
  induction fs generalizing config with
  | nil => simp [members, decodeMembers]
  | cons f fs ih =>
      rw [List.forall_mem_cons, members]
      cases hv : value f with
      | none =>
          rw [List.filterMap_cons_none (by rw [hv]; rfl)]
          exact (ih config).trans ⟨fun h => ⟨nofun, h⟩, And.right⟩
      | some v =>
          rw [List.filterMap_cons_some (b := (f.tag, v)) (by rw [hv]; rfl), decodeMembers,
            fieldOf_tag]
          dsimp only
          rcases assign_cases config f v with ⟨haccepts, config', hassign⟩ | ⟨hnot, e, hassign⟩
          · rw [hassign]
            exact (ih config').trans
              ⟨fun h => ⟨fun _ hw => Option.some.inj hw ▸ haccepts, h⟩, And.right⟩
          · rw [hassign]
            simp only [Option.none_or, decodeMembers_saved]
            exact ⟨nofun, fun h => absurd (h.1 v rfl) hnot⟩

/-- The text in a value, else what was there. -/
def stringOr (old : Text) : Option Json.Value → Text
  | some (.string s) => s
  | _ => old

def portOr (old : Int) : Option Json.Value → Int
  | some (.number literal) => (parseInt literal).getD old
  | _ => old

def boolOr (old : Bool) : Option Json.Value → Bool
  | some (.bool b) => b
  | _ => old

/-- Decoding these values makes the one configuration the other. -/
structure Stores (config : NodeConfig) (value : Field → Option Json.Value) (config' : NodeConfig) :
    Prop where
  strings : ∀ f, config'.strings f = stringOr (config.strings f) (value (.string f))
  port : config'.port = portOr config.port (value .port)
  skipCertVerify : config'.skipCertVerify = boolOr config.skipCertVerify (value .skipCertVerify)

theorem Stores.refl (config : NodeConfig) : Stores config (fun _ => none) config :=
  ⟨fun _ => rfl, rfl, rfl⟩

/-- Values for different fields, one after the other. -/
theorem Stores.trans {config config' config'' : NodeConfig}
    {value value' : Field → Option Json.Value}
    (h : Stores config value config') (h' : Stores config' value' config'')
    (hne : ∀ f, value f = none ∨ value' f = none) :
    Stores config (fun f => (value f).or (value' f)) config'' := by
  refine ⟨fun f => ?_, ?_, ?_⟩
  · rw [h'.strings, h.strings]
    rcases hne (.string f) with hn | hn
    · rw [hn]
      rfl
    · rw [hn, Option.or_none]
      rfl
  · rw [h'.port, h.port]
    rcases hne .port with hn | hn
    · rw [hn]
      rfl
    · rw [hn, Option.or_none]
      rfl
  · rw [h'.skipCertVerify, h.skipCertVerify]
    rcases hne .skipCertVerify with hn | hn
    · rw [hn]
      rfl
    · rw [hn, Option.or_none]
      rfl

theorem assign_stores {config config' : NodeConfig} {f : Field} {v : Json.Value}
    (h : assign config f v = .ok config') :
    Stores config (fun g => if g = f then some v else none) config' := by
  cases v with
  | null =>
      cases h
      refine ⟨fun g => ?_, ?_, ?_⟩ <;> (split <;> rfl)
  | bool b =>
      rcases f with f | _ | _ <;> cases h
      exact ⟨fun g => rfl, rfl, rfl⟩
  | number literal =>
      rcases f with f | _ | _ <;> try cases h
      rw [assign] at h
      cases hn : parseInt literal with
      | none => rw [hn] at h; cases h
      | some n =>
          rw [hn] at h
          cases h
          refine ⟨fun g => rfl, ?_, rfl⟩
          rw [if_pos rfl, portOr, hn, Option.getD_some]
  | string s =>
      rcases f with f | _ | _ <;> cases h
      refine ⟨fun g => ?_, rfl, rfl⟩
      by_cases hg : g = f
      · rw [hg, if_pos rfl, stringOr]
        exact Function.update_self _ _ _
      · rw [if_neg fun he => hg (Field.string.inj he)]
        exact Function.update_of_ne hg _ _
  | array _ => cases h
  | object _ => cases h

/-- The values of the first field and those of the others. -/
theorem restrict_cons (value : Field → Option Json.Value) {f : Field} {fs : List Field}
    (hf : f ∉ fs) :
    (fun g => if g ∈ f :: fs then value g else none) =
      fun g => (if g = f then value f else none).or (if g ∈ fs then value g else none) := by
  funext g
  by_cases hg : g = f
  · rw [hg, if_pos List.mem_cons_self, if_pos rfl, if_neg hf, Option.or_none]
  · simp only [List.mem_cons, hg, false_or, if_false, Option.none_or]

theorem decodeMembers_stores (value : Field → Option Json.Value) {fs : List Field}
    (hfs : fs.Nodup) {config config' : NodeConfig}
    (h : decodeMembers config none (members value fs) = (config', none)) :
    Stores config (fun f => if f ∈ fs then value f else none) config' := by
  induction fs generalizing config with
  | nil =>
      cases h
      have hnone : (fun f => if f ∈ ([] : List Field) then value f else none) = fun _ => none :=
        funext fun f => if_neg List.not_mem_nil
      rw [hnone]
      exact .refl _
  | cons f fs ih =>
      obtain ⟨hf, hfs⟩ := List.nodup_cons.mp hfs
      rw [members] at h
      cases hv : value f with
      | none =>
          rw [List.filterMap_cons_none (by rw [hv]; rfl)] at h
          simp only [restrict_cons value hf, hv, ite_self, Option.none_or]
          exact ih hfs h
      | some v =>
          rw [List.filterMap_cons_some (b := (f.tag, v)) (by rw [hv]; rfl), decodeMembers,
            fieldOf_tag] at h
          dsimp only at h
          rcases assign_cases config f v with ⟨-, config₁, hassign⟩ | ⟨-, e, hassign⟩
          · rw [hassign] at h
            rw [restrict_cons value hf, hv]
            refine (assign_stores hassign).trans (ih hfs h) fun g => ?_
            by_cases hg : g = f
            · rw [hg]
              exact .inr (if_neg hf)
            · exact .inl (if_neg hg)
          · rw [hassign] at h
            have hsaved := decodeMembers_saved config e (members value fs)
            rw [members] at hsaved
            simp only [Option.none_or] at h
            rw [h] at hsaved
            cases hsaved

/-! ## Nodes of scalars -/

/-- The JSON value of a field of the payload. -/
def Field.value (node : Node) (f : Field) : Option Json.Value :=
  (f.source node).map fun v => v.toJson.value

theorem nodeOf_eq_ok {node : Node} {config : NodeConfig} :
    nodeOf (nodeB64 node) = .ok config ↔
      decodeMembers {} none (members (Field.value node) fields) = (config, none) := by
  rw [unmarshal_stringify]
  change (match decodeMembers {} none (members (Field.value node) fields) with
    | (config, none) => Except.ok config
    | (_, some e) => .error (Failure.nodeJson e)) = .ok config ↔ _
  rcases decodeMembers {} none (members (Field.value node) fields) with ⟨config', _ | e⟩
  · simp
  · simp

theorem nodeOf_stores {node : Node} {config : NodeConfig}
    (h : nodeOf (nodeB64 node) = .ok config) : Stores {} (Field.value node) config := by
  have hstores := decodeMembers_stores _ (by decide) (nodeOf_eq_ok.mp h)
  simpa only [mem_fields, if_true] using hstores

/-- Every field of the payload is accepted exactly when the argument is. -/
theorem nodeOf_isOk_iff (node : Node) :
    (∃ config, nodeOf (nodeB64 node) = .ok config) ↔
      ∀ f v, f.value node = some v → Accepts f v := by
  have haccepts := decodeMembers_accepts (Field.value node) fields {}
  simp only [nodeOf_eq_ok]
  constructor
  · rintro ⟨config, h⟩ f v hv
    exact haccepts.mp (congrArg Prod.snd h) f (mem_fields f) v hv
  · intro h
    have hnone := haccepts.mpr fun f _ => h f
    exact ⟨_, Prod.ext rfl hnone⟩

/-- A string field is accepted and says what the node says only if it is a string. -/
theorem string_of_decoded {node : Node} {config : NodeConfig} {f : StringField} {v : Scalar}
    (hv : f.of node = some v) (haccepts : Accepts (.string f) v.toJson.value)
    (hstored : config.strings f = stringOr [] (some v.toJson.value))
    (hsaid : config.strings f = v.toText) : ∃ s, v = .text s := by
  cases v with
  | text s => exact ⟨s, rfl⟩
  | bool b => cases haccepts
  | number x =>
      cases x with
      | finite q => cases haccepts.1
      | nan => exact absurd (hsaid.symm.trans hstored) (by decide)
      | infinity negative =>
          cases negative <;> exact absurd (hsaid.symm.trans hstored) (by decide)

/-- The connector decodes a node whose port is an integer exactly when the string fields that the
node has are strings and the port's numeral reads back as the port. -/
theorem connector_decodes_iff (node : Node) (port : Int) (h : toNumber node.port = .finite port) :
    (∃ config, nodeOf (nodeB64 node) = .ok config ∧ Decoded node port config) ↔
      (∀ (f : StringField) (v : Scalar), f.of node = some v → ∃ s, v = .text s) ∧
        parseInt (Number.toText (.finite port)) = some port := by
  have hport : Field.value node .port = some (.number (Number.toText (.finite port))) := by
    change some (Scalar.number (toNumber node.port)).toJson.value = _
    rw [h]
    rfl
  have hskip : Field.value node .skipCertVerify =
      some (.bool (node.skipCertVerify = some (.bool true))) := rfl
  have hstring : ∀ f : StringField, Field.value node (.string f) =
      (f.of node).map fun v => v.toJson.value := fun _ => rfl
  constructor
  · rintro ⟨config, hok, hstrings, hp, -⟩
    have haccepts := (nodeOf_isOk_iff node).mp ⟨config, hok⟩
    have hstores := nodeOf_stores hok
    refine ⟨fun f v hv => ?_, ?_⟩
    · have hvalue : Field.value node (.string f) = some v.toJson.value := by rw [hstring, hv]; rfl
      refine string_of_decoded hv (haccepts _ _ hvalue) (hvalue ▸ hstores.strings f) ?_
      rw [hstrings, hv]
      rfl
    · obtain ⟨-, n, hn⟩ := haccepts _ _ hport
      have hstored := hstores.port
      rw [hport, portOr, hn, Option.getD_some, hp] at hstored
      rw [hn, hstored]
  · rintro ⟨hstrings, hn⟩
    obtain ⟨config, hok⟩ := (nodeOf_isOk_iff node).mpr fun f v hv => by
      rcases f with f | _ | _
      · obtain ⟨x, hx, rfl⟩ := Option.map_eq_some_iff.mp hv
        obtain ⟨s, rfl⟩ := hstrings f x hx
        exact ⟨f, rfl⟩
      · obtain rfl := Option.some.inj (hport.symm.trans hv)
        exact ⟨rfl, port, hn⟩
      · obtain rfl := Option.some.inj (hskip.symm.trans hv)
        rfl
    have hstores := nodeOf_stores hok
    refine ⟨config, hok, fun f => ?_, ?_, ?_⟩
    · rw [hstores.strings, hstring]
      cases hv : f.of node with
      | none => rfl
      | some v =>
          obtain ⟨s, rfl⟩ := hstrings f v hv
          rfl
    · rw [hstores.port, hport, portOr, hn, Option.getD_some]
    · rw [hstores.skipCertVerify, hskip, boolOr, decide_eq_true_iff]

/-- A port below `2^52` reads back. -/
theorem port_reads_back {n : Nat} (h : n < 2 ^ 52) :
    parseInt (Number.toText (.finite n)) = some (n : Int) := by
  have hall : (Nat.toDigits 10 n).all Char.isDigit = true :=
    List.all_eq_true.mpr fun c hc => Nat.isDigit_of_mem_toDigits (by decide) (le_refl 10) hc
  have hempty : (Nat.toDigits 10 n).isEmpty = false := by
    rw [List.isEmpty_eq_false_iff]
    exact Nat.toDigits_ne_nil
  have hsign : Number.splitSign (Nat.toDigits 10 n) = (false, Nat.toDigits 10 n) := by
    unfold Number.splitSign
    split
    · next hs => rw [hs] at hall; cases hall
    · next hs => rw [hs] at hall; cases hall
    · rfl
  rw [Number.toText_natCast h, parseInt, hsign]
  simp only [hall, hempty, Nat.ofDigitChars_ten_toDigits, Bool.not_true, Bool.or_self,
    Bool.false_eq_true, if_false]
  rw [if_pos (by omega)]

/-- A hysteria2 node. -/
def sample (password : Scalar) : Node where
  type := some (.text "hysteria2".toList)
  server := some (.text "example.com".toList)
  port := some (.number 443)
  password := some password

theorem quoted_password_decoded : ∃ config, nodeOf (nodeB64 (sample (.text "123456".toList))) =
    .ok config ∧ Decoded (sample (.text "123456".toList)) 443 config := by
  refine (connector_decodes_iff (sample (.text "123456".toList)) 443 rfl).mpr
    ⟨fun f v hv => ?_, port_reads_back (n := 443) (by decide)⟩
  cases f <;> cases hv <;> exact ⟨_, rfl⟩

/-- A password that YAML takes for a number is rejected. -/
theorem numeric_password_rejected :
    ¬ ∀ (node : Node) (port : Int), toNumber node.port = .finite port →
      ∃ config, nodeOf (nodeB64 node) = .ok config ∧ Decoded node port config := by
  intro h
  obtain ⟨hstrings, -⟩ := (connector_decodes_iff (sample (.number 123456)) 443 rfl).mp (h _ _ rfl)
  obtain ⟨s, hs⟩ := hstrings .password _ rfl
  cases hs

end DshClashProxy.Core.NodeArgument
