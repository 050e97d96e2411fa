import DshClashProxy.Core.Rules

/-!
# Decisions are first matches

The constructor sorts compiled rules into three lists, and `decide` looks into one of
them. Since a rule only ever hits subjects of its own class, the decision is that of the
first rule, in line order, that hits the classified host; the table of the host's class is
the fallback.
-/
namespace DshClashProxy.Core.RuleOrder

open Js Js.Text Core.Rules

/-- What `decide` takes a host to be. -/
inductive Subject where
  | host (name : Text)
  | ip (address : Nat)
  | ip6 (groups : List Number)
  deriving DecidableEq

variable (cases : CaseMap) (tables : Tables)

def classify (rawHost : Text) : Subject :=
  let host := trim (cases.toLower rawHost)
  match ipv4ToInt host with
  | some address => .ip address
  | none =>
      match ipv6ToGroups host with
      | some groups => .ip6 groups
      | none => .host host

def hits : Rule → Subject → Bool
  | .host r, .host name => r.hits cases name
  | .ip r, .ip address => r.hits address
  | .ip6 r, .ip6 groups => r.hits groups
  | _, _ => false

/-- The embedded table of the subject's class covers it. -/
def covered : Subject → Bool
  | .host name => inCnSuffixes tables name
  | .ip address => inCnCidr4 tables.cnCidrs4 address
  | .ip6 groups => inCnCidr6 tables.cnCidrs6 groups

def fallback (subject : Subject) : Action := if covered tables subject then .direct else .proxy

/-- The rules of a list of lines, in line order. -/
def compiled (lines : List Text) : List Rule := lines.filterMap (compileRule cases)

/-- The first rule that hits the subject. -/
def firstHit (rules : List Rule) (subject : Subject) : Option Rule :=
  rules.find? (hits cases · subject)

def outcome (rules : List Rule) (subject : Subject) : Action :=
  ((firstHit cases rules subject).map Rule.action).getD (fallback tables subject)

/-! ## The three lists -/

def Rule.host? : Rule → Option HostRule
  | .host r => some r
  | _ => none

def Rule.ip? : Rule → Option IpRule
  | .ip r => some r
  | _ => none

def Rule.ip6? : Rule → Option Ip6Rule
  | .ip6 r => some r
  | _ => none

/-- The engine that holds a list of rules behind those it already has. -/
def sorted (engine : RuleEngine) (rules : List Rule) : RuleEngine where
  hostRules := engine.hostRules ++ rules.filterMap Rule.host?
  ipRules := engine.ipRules ++ rules.filterMap Rule.ip?
  ip6Rules := engine.ip6Rules ++ rules.filterMap Rule.ip6?

theorem sorted_push (engine : RuleEngine) (r : Rule) (rules : List Rule) :
    sorted (engine.push r) rules = sorted engine (r :: rules) := by
  cases r <;> simp [sorted, RuleEngine.push, List.filterMap_cons, Rule.host?, Rule.ip?, Rule.ip6?]

theorem new_fold (engine : RuleEngine) (lines : List Text) :
    lines.foldl (fun engine line => match compileRule cases line with
      | some rule => engine.push rule
      | none => engine) engine = sorted engine (compiled cases lines) := by
  induction lines generalizing engine with
  | nil => simp [compiled, sorted]
  | cons line rest ih =>
      rw [List.foldl_cons, ih]
      cases hc : compileRule cases line with
      | none => simp [compiled, hc]
      | some rule => rw [sorted_push]; simp [compiled, hc]

/-- The constructor sorts the compiled lines of both lists and loses none of them. -/
theorem new_eq (extraRules excludeRules : List Text) (subscriptionRules : List Yaml) :
    RuleEngine.new cases extraRules excludeRules subscriptionRules =
      sorted {} (compiled cases (extraRules ++ keptLines excludeRules subscriptionRules)) :=
  new_fold cases {} _

/-! ## First match -/

/-- Searching one class's list is searching all rules for a hit of that class. -/
theorem find?_class {α : Type} {pick : Rule → Option α} {wrap : α → Rule}
    (hpick : ∀ r a, pick r = some a ↔ r = wrap a) {p : α → Bool} {q : Rule → Bool}
    (hp : ∀ a, q (wrap a) = p a) (hq : ∀ r, pick r = none → q r = false) (rules : List Rule) :
    ((rules.filterMap pick).find? p).map wrap = rules.find? q := by
  induction rules with
  | nil => rfl
  | cons r rest ih =>
      cases hr : pick r with
      | none => rw [List.filterMap_cons_none hr, ih, List.find?_cons_of_neg (by simp [hq r hr])]
      | some a =>
          obtain rfl := (hpick r a).mp hr
          rw [List.filterMap_cons_some hr, List.find?_cons, List.find?_cons, hp]
          cases p a
          · exact ih
          · rfl

theorem firstHit_host (rules : List Rule) (name : Text) :
    firstHit cases rules (.host name) =
      ((rules.filterMap Rule.host?).find? (HostRule.hits cases · name)).map Rule.host := by
  symm
  apply find?_class
  · intro r a; cases r <;> simp [Rule.host?]
  · intro a; rfl
  · intro r hr; cases r <;> first | rfl | cases hr

theorem firstHit_ip (rules : List Rule) (address : Nat) :
    firstHit cases rules (.ip address) =
      ((rules.filterMap Rule.ip?).find? (IpRule.hits · address)).map Rule.ip := by
  symm
  apply find?_class
  · intro r a; cases r <;> simp [Rule.ip?]
  · intro a; rfl
  · intro r hr; cases r <;> first | rfl | cases hr

theorem firstHit_ip6 (rules : List Rule) (groups : List Number) :
    firstHit cases rules (.ip6 groups) =
      ((rules.filterMap Rule.ip6?).find? (Ip6Rule.hits · groups)).map Rule.ip6 := by
  symm
  apply find?_class
  · intro r a; cases r <;> simp [Rule.ip6?]
  · intro a; rfl
  · intro r hr; cases r <;> first | rfl | cases hr

/-- An engine that holds a list of rules decides by the first of them that hits. -/
theorem decide_sorted (rules : List Rule) (rawHost : Text) :
    (sorted {} rules).decide cases tables rawHost =
      outcome cases tables rules (classify cases rawHost) := by
  simp only [RuleEngine.decide, classify]
  cases h4 : ipv4ToInt (trim (cases.toLower rawHost)) with
  | some address =>
      simp only [outcome, firstHit_ip, RuleEngine.matchIp, sorted, List.nil_append, fallback,
        covered, Option.map_map]
      cases (rules.filterMap Rule.ip?).find? (IpRule.hits · address) with
      | some r => rfl
      | none => by_cases hc : inCnCidr4 tables.cnCidrs4 address = true <;> simp [hc]
  | none =>
      cases h6 : ipv6ToGroups (trim (cases.toLower rawHost)) with
      | some groups =>
          simp only [outcome, firstHit_ip6, RuleEngine.matchIp6, sorted, List.nil_append,
            fallback, covered, Option.map_map]
          cases (rules.filterMap Rule.ip6?).find? (Ip6Rule.hits · groups) with
          | some r => rfl
          | none => by_cases hc : inCnCidr6 tables.cnCidrs6 groups = true <;> simp [hc]
      | none =>
          simp only [outcome, firstHit_host, RuleEngine.decideName, RuleEngine.matchHost, sorted,
            List.nil_append, fallback, covered, Option.map_map]
          cases (rules.filterMap Rule.host?).find?
              (HostRule.hits cases · (trim (cases.toLower rawHost))) with
          | some r => rfl
          | none => rfl

/-- The decision of a constructed engine, over the lines it was given. -/
theorem decide_new (extraRules excludeRules : List Text) (subscriptionRules : List Yaml)
    (rawHost : Text) :
    (RuleEngine.new cases extraRules excludeRules subscriptionRules).decide cases tables rawHost =
      outcome cases tables (compiled cases extraRules ++
        compiled cases (keptLines excludeRules subscriptionRules)) (classify cases rawHost) := by
  rw [new_eq, decide_sorted, compiled, List.filterMap_append]
  rfl

/-- Rules in front decide whenever one of them hits. -/
theorem outcome_append (front back : List Rule) (subject : Subject) :
    outcome cases tables (front ++ back) subject =
      match firstHit cases front subject with
      | some r => r.action
      | none => outcome cases tables back subject := by
  unfold outcome firstHit
  rw [List.find?_append]
  cases front.find? (hits cases · subject) <;> rfl

/-! ## First line -/

/-- The constructor, for a list of extra rules in which not all need to be strings. -/
def construct (extraRules : List Yaml) (excludeRules : List Text)
    (subscriptionRules : List Yaml) : RuleEngine :=
  RuleEngine.new cases (extraRules.filterMap Yaml.text?) excludeRules subscriptionRules

end DshClashProxy.Core.RuleOrder
