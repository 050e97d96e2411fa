import DshClashProxy.Js.Base64
import DshClashProxy.Js.Numeral

/-!
# Subscription bodies

`parseSubscription` takes a YAML document, or one wrapped in base64. A body that looks like
base64 is tried decoded first. The YAML parser is a parameter: a function of the text that
finds no document in an empty one.
-/
namespace DshClashProxy.Core.Subscription

open Js Js.Text

/-! ## Documents -/

/-- A value that `yaml.load` returns. -/
inductive Value where
  | undefined
  | null
  | bool (b : Bool)
  | number (x : Number)
  | string (s : Text)
  | sequence (items : List Value)
  | mapping (entries : List (Text × Value))
  /-- An object of another kind, such as a date, with what `String` makes of it. -/
  | object (text : Text)

/-- `value?.name` -/
def Value.field (value : Value) (name : Text) : Value :=
  match value with
  | .mapping entries => ((entries.find? (·.1 = name)).map Prod.snd).getD .undefined
  | _ => .undefined

/-- The string, for a value whose type is `"string"`. -/
def Value.text? : Value → Option Text
  | .string s => some s
  | _ => none

/-- `Array.isArray(value) ? value : []` -/
def Value.items : Value → List Value
  | .sequence items => items
  | _ => []

/-- `value !== null && typeof value === "object"` -/
def Value.isObject : Value → Bool
  | .sequence _ => true
  | .mapping _ => true
  | .object _ => true
  | _ => false

/-- `value ?? other` -/
def Value.orElse (value other : Value) : Value :=
  match value with
  | .undefined => other
  | .null => other
  | value => value

/-- `yaml.load`. An empty text holds no document. -/
structure YamlLoader where
  load : Text → Except Text Value
  load_empty : load [] = .ok .undefined

/-! ## Recognizing base64 -/

/-- `\w` -/
def isWord (c : Char) : Bool := c.isAlphanum || c = '_'

/-- The characters after which `^` matches within a text. -/
def isLineEnd (c : Char) : Bool := c = '\n' || c = '\r' || c = '\u2028' || c = '\u2029'

/-- `[a-z_][\w-]*\s*:` at the start of a text. The three classes exclude one another, so each
is passed as far as it goes. -/
def startsWithKey : Text → Bool
  | [] => false
  | c :: rest =>
      (c.isLower || c = '_') &&
        ((rest.dropWhile fun c => isWord c || c = '-').dropWhile isSpace).head? = some ':'

/-- `/^[a-z_][\w-]*\s*:/m` -/
def hasKey : (lineStart : Bool) → Text → Bool
  | _, [] => false
  | lineStart, c :: rest => lineStart && startsWithKey (c :: rest) || hasKey (isLineEnd c) rest

/-- `/\s*-\s/` -/
def hasItem : Text → Bool
  | [] => false
  | c :: rest => c = '-' && rest.head?.any isSpace || hasItem rest

/-- `[A-Za-z0-9+/=\r\n]` -/
def isBase64Char (c : Char) : Bool :=
  c.isAlphanum || c = '+' || c = '/' || c = '=' || c = '\r' || c = '\n'

/-- `slice(0, count)`, which counts code units. A character that it cuts counts as a whole;
neither it nor half of it is white space or a character of base64. -/
def firstUnits (count : Nat) : Text → Text
  | [] => []
  | c :: rest =>
      if count = 0 then [] else c :: firstUnits (count - if c.toNat < 65536 then 1 else 2) rest

/-- `replace(/\s+/g, "")` -/
def withoutSpace (s : Text) : Text := s.filter fun c => !isSpace c

/-- The body looks like base64 rather than YAML. -/
def looksBase64 (text : Text) : Bool :=
  let head := withoutSpace (firstUnits 64 (trimStart text))
  !(hasKey true text || hasItem text) && !head.isEmpty && head.all isBase64Char

example : looksBase64 "proxies: []".toList = false := by decide

/-! ## Parsing -/

/-- What a subscription is parsed into. -/
structure Parsed where
  proxies : List Value
  groups : List Value
  rules : List Value
  names : List Text

def reservedNames : List Text :=
  ["DIRECT", "REJECT", "REJECT-DROP", "PASS", "COMPATIBLE", "GLOBAL"].map String.toList

/-- `typeof proxy === "string" ? proxy : proxy?.name` -/
def proxyName (proxy : Value) : Value :=
  match proxy with
  | .string s => .string s
  | proxy => proxy.field "name".toList

/-- The filter of the proxies. -/
def isKept (proxy : Value) : Bool :=
  match (proxyName proxy).text? with
  | some name => !reservedNames.contains name && name.length ≠ 0
  | none => false

/-- What is taken from a document. The proxies that are kept have strings for names. -/
def ofDocument (document : Value) : Parsed :=
  let payload : Value :=
    match document with
    | .sequence items => .mapping [("proxies".toList, .sequence items)]
    | document => document
  let proxies := (payload.field "proxies".toList).items.filter isKept
  { proxies
    groups := (payload.field "proxy-groups".toList).items
    rules := (payload.field "rules".toList).items
    names := (proxies.filterMap fun proxy => (proxyName proxy).text?).filter (· ≠ []) }

/-- Parse one subscription body. -/
def parseSubscription (yaml : YamlLoader) (raw : Text) : Except Text Parsed :=
  let attempts :=
    if looksBase64 raw then [Bytes.utf8Decode (Bytes.fromBase64 (withoutSpace raw)), raw]
    else [raw]
  match attempts.findSome? fun candidate =>
      (yaml.load candidate).toOption.filter Value.isObject with
  | some document => .ok (ofDocument document)
  | none => .error "subscription body is neither YAML nor base64-wrapped YAML".toList

/-! ## Wrapped bodies -/

/-- The body is the base64 of the text's bytes, with white space put in anywhere. -/
def Wraps (body text : Text) : Prop :=
  withoutSpace body = Bytes.base64 (Bytes.utf8Encode text)

theorem isBase64Char_of_mem {b : Bytes} {c : Char} (h : c ∈ Bytes.base64 b) :
    isBase64Char c = true ∧ c ≠ ':' ∧ c ≠ '-' := by
  have hdigit : ∀ n < 64, isBase64Char (Bytes.base64Digit n) = true ∧
      Bytes.base64Digit n ≠ ':' ∧ Bytes.base64Digit n ≠ '-' := by
    decide +kernel
  rcases Bytes.mem_base64 h with rfl | ⟨n, hn, rfl⟩
  · decide
  · exact hdigit n hn

theorem hasItem_of_not_mem {s : Text} (h : '-' ∉ s) : hasItem s = false := by
  induction s with
  | nil => rfl
  | cons c rest ih =>
      rw [List.mem_cons, not_or] at h
      rw [hasItem, ih h.2, decide_eq_false (Ne.symm h.1)]
      rfl

theorem startsWithKey_of_not_mem {s : Text} (h : ':' ∉ s) : startsWithKey s = false := by
  cases s with
  | nil => rfl
  | cons c rest =>
      have hcolon : ((rest.dropWhile fun c => isWord c || c = '-').dropWhile isSpace).head? ≠
          some ':' := by
        intro he
        have hmem := (List.dropWhile_suffix _).mem (List.mem_of_head? he)
        exact h (.tail c ((List.dropWhile_suffix _).mem hmem))
      rw [startsWithKey, decide_eq_false hcolon, Bool.and_false]

theorem hasKey_of_not_mem {s : Text} (h : ':' ∉ s) (lineStart : Bool) :
    hasKey lineStart s = false := by
  induction s generalizing lineStart with
  | nil => rfl
  | cons c rest ih =>
      rw [hasKey, startsWithKey_of_not_mem h, ih (fun hm => h (.tail c hm)), Bool.and_false]
      rfl

theorem firstUnits_subset (count : Nat) (s : Text) : firstUnits count s ⊆ s := by
  induction s generalizing count with
  | nil => exact List.Subset.refl []
  | cons c rest ih =>
      rw [firstUnits]
      split
      · exact List.nil_subset _
      · exact List.cons_subset_cons c (ih _)

theorem base64_ne_nil {text : Text} (h : text ≠ []) :
    Bytes.base64 (Bytes.utf8Encode text) ≠ [] := by
  intro hnil
  have hbytes : Bytes.utf8Encode text = [] := by
    rw [← Bytes.fromBase64_base64 (Bytes.utf8Encode text), hnil]
    rfl
  refine h ?_
  rw [← Bytes.utf8Decode_utf8Encode text, hbytes]
  rfl

/-- A wrapped body is recognized, whatever white space is put in. -/
theorem looksBase64_of_wraps {body text : Text} (h : Wraps body text) (hne : text ≠ []) :
    looksBase64 body = true := by
  have hchar : ∀ c ∈ body, isSpace c = false → isBase64Char c = true ∧ c ≠ ':' ∧ c ≠ '-' := by
    intro c hc hspace
    have hmem : c ∈ withoutSpace body := List.mem_filter.mpr ⟨hc, by rw [hspace]; rfl⟩
    rw [show withoutSpace body = _ from h] at hmem
    exact isBase64Char_of_mem hmem
  have hcolon : ':' ∉ body := fun hm => (hchar ':' hm (by decide)).2.1 rfl
  have hdash : '-' ∉ body := fun hm => (hchar '-' hm (by decide)).2.2 rfl
  have hfirst : ∃ c rest, trimStart body = c :: rest ∧ isSpace c = false := by
    cases ht : trimStart body with
    | nil =>
        have hall := List.dropWhile_eq_nil_iff.mp ht
        have hnil : withoutSpace body = [] :=
          List.filter_eq_nil_iff.mpr fun c hc => by rw [hall c hc]; decide
        rw [show withoutSpace body = _ from h] at hnil
        exact absurd hnil (base64_ne_nil hne)
    | cons c rest =>
        have hnot := List.head?_dropWhile_not isSpace body
        rw [show body.dropWhile isSpace = c :: rest from ht] at hnot
        exact ⟨c, rest, rfl, hnot⟩
  obtain ⟨c, rest, hstart, hc⟩ := hfirst
  have hhead : withoutSpace (firstUnits 64 (trimStart body)) ≠ [] := by
    have hmem : c ∈ withoutSpace (firstUnits 64 (trimStart body)) := by
      rw [hstart]
      exact List.mem_filter.mpr ⟨List.mem_cons_self, by rw [hc]; rfl⟩
    exact List.ne_nil_of_mem hmem
  have hall : (withoutSpace (firstUnits 64 (trimStart body))).all isBase64Char = true := by
    refine List.all_eq_true.mpr fun d hd => ?_
    obtain ⟨hd, hspace⟩ := List.mem_filter.mp hd
    have hbody : d ∈ body := (List.dropWhile_suffix _).mem (firstUnits_subset _ _ hd)
    exact (hchar d hbody (by simpa using hspace)).1
  unfold looksBase64
  simp only [hasKey_of_not_mem hcolon, hasItem_of_not_mem hdash, hall]
  simpa using hhead

/-- The text is read back from a wrapped body. -/
theorem decode_of_wraps {body text : Text} (h : Wraps body text) :
    Bytes.utf8Decode (Bytes.fromBase64 (withoutSpace body)) = text := by
  rw [show withoutSpace body = _ from h, Bytes.fromBase64_base64, Bytes.utf8Decode_utf8Encode]

/-- A body that is parsed as it stands holds an object. -/
theorem document_of_parsed {yaml : YamlLoader} {text : Text} (hplain : looksBase64 text = false)
    {parsed : Parsed} (h : parseSubscription yaml text = .ok parsed) :
    ∃ document, (yaml.load text).toOption.filter Value.isObject = some document ∧
      parsed = ofDocument document := by
  unfold parseSubscription at h
  rw [hplain, if_neg Bool.false_ne_true] at h
  simp only [List.findSome?_cons, List.findSome?_nil] at h
  cases hd : (yaml.load text).toOption.filter Value.isObject with
  | none => simp only [hd, reduceCtorEq] at h
  | some document =>
      simp only [hd, Except.ok.injEq] at h
      exact ⟨document, rfl, h.symm⟩

/-- Wrapping a subscription in base64 does not change what is parsed. -/
theorem parse_wrapped {yaml : YamlLoader} {text body : Text} {parsed : Parsed}
    (hplain : looksBase64 text = false) (hparsed : parseSubscription yaml text = .ok parsed)
    (hwraps : Wraps body text) : parseSubscription yaml body = .ok parsed := by
  obtain ⟨document, hdocument, rfl⟩ := document_of_parsed hplain hparsed
  have hne : text ≠ [] := by
    rintro rfl
    rw [yaml.load_empty] at hdocument
    cases hdocument
  unfold parseSubscription
  rw [looksBase64_of_wraps hwraps hne, if_pos rfl, decode_of_wraps hwraps]
  simp only [List.findSome?_cons, hdocument]

/-- A body with one node, and its base64 on two lines. -/
def oneNode : Text := "proxies: [{name: a}]".toList

def wrappedNode : Text := "cHJveGllczog\r\nW3tuYW1lOiBhfV0= ".toList

/-- A loader for this body. -/
def oneNodeLoader : YamlLoader where
  load s :=
    if s = oneNode then
      .ok (.mapping [("proxies".toList,
        .sequence [.mapping [("name".toList, .string "a".toList)]])])
    else .ok .undefined
  load_empty := rfl

theorem wrapped_node_parsed :
    ∃ parsed, parseSubscription oneNodeLoader oneNode = .ok parsed ∧
      parseSubscription oneNodeLoader wrappedNode = .ok parsed := by
  have hparsed : parseSubscription oneNodeLoader oneNode = .ok _ := rfl
  have hwraps : Wraps wrappedNode oneNode := by
    unfold Wraps
    decide +kernel
  exact ⟨_, hparsed, parse_wrapped (by decide) hparsed hwraps⟩

end DshClashProxy.Core.Subscription
