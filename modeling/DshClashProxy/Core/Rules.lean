import DshClashProxy.Js.Number

/-!
# The rule engine

Rule lines compile to matchers on hostnames, IPv4 numbers or IPv6 groups. An engine keeps
the three kinds in three lists, in line order. `decide` classifies a raw host, takes the
first matching rule of its class and falls back to the embedded domestic table of that
class. The tables are data files, so they are a parameter.
-/
namespace DshClashProxy.Core.Rules

open Js Js.Text

inductive Action where
  | direct
  | proxy
  | reject
  deriving DecidableEq

/-- An element of a parsed YAML list. Only strings can be rules. -/
inductive Yaml where
  | str (s : Text)
  | other
  deriving DecidableEq

def Yaml.text? : Yaml → Option Text
  | .str s => some s
  | .other => none

/-- The embedded data: domestic suffixes, IPv4 CIDRs sorted by base, and IPv6 CIDRs sorted
by groups. -/
structure Tables where
  cnSuffixes : List Text := []
  cnCidrs4 : List (Nat × Nat) := []
  cnCidrs6 : List (List Number × Nat) := []

/-! ## Address parsing -/

/-- One octet of a dotted string, as `Number` reads it. -/
def octet (part : Text) : Option Nat :=
  (Number.ofText part).toInt?.bind fun n => if 0 ≤ n ∧ n ≤ 255 then some n.toNat else none

/-- IPv4 dotted string to uint32. -/
def ipv4ToInt (ip : Text) : Option Nat :=
  match (ip.splitOn '.').mapM octet with
  | some [a, b, c, d] => some (((a * 256 + b) * 256 + c) * 256 + d)
  | _ => none

def hexGroups (s : Text) : List Number :=
  if s.isEmpty then [] else (s.splitOn ':').map Number.parseHex

/-- IPv6 string to eight groups. Text after a second `::` is ignored. -/
def ipv6ToGroups (ip : Text) : Option (List Number) :=
  match split ip "::".toList with
  | left :: right :: _ =>
      let leftGroups := hexGroups left
      let rightGroups := hexGroups right
      if 7 < leftGroups.length + rightGroups.length || leftGroups.any Number.isNaN ||
          rightGroups.any Number.isNaN then none
      else
        some (leftGroups ++ List.replicate (8 - leftGroups.length - rightGroups.length) 0 ++
          rightGroups)
  | _ =>
      let groups := (ip.splitOn ':').map Number.parseHex
      if groups.length ≠ 8 || groups.any Number.isNaN then none else some groups

/-! ## CIDR tests -/

/-- `prefix === 0 ? 0 : (-1 << (32 - prefix)) >>> 0`; the shift count is taken modulo 32. -/
def mask4 (bits : Int) : BitVec 32 :=
  if bits = 0 then 0 else BitVec.allOnes 32 <<< ((32 - bits) % 32).toNat

def sameNetwork4 (mask : BitVec 32) (ip base : Nat) : Bool :=
  BitVec.ofNat 32 ip &&& mask = BitVec.ofNat 32 base &&& mask

/-- `(groups[bit >> 4] >> (15 - (bit & 15))) & 1`, zero past the last group. -/
def groupBit (groups : List Number) (bit : Nat) : Bool :=
  match groups[bit / 16]? with
  | some g => g.toInt32.getLsbD (15 - bit % 16)
  | none => false

/-- The first `bits` bits of two addresses agree. Past the last group both read as zero, or
as bits that have been compared before; the loop of the source would count to no end only
above `2^53`. -/
def samePrefix6 (bits : Nat) (a b : List Number) : Bool :=
  (List.range bits).all fun bit => groupBit a bit == groupBit b bit

/-- The scan stops at the first row whose base lies above the address. -/
def inCnCidr4 : List (Nat × Nat) → Nat → Bool
  | [], _ => false
  | (base, bits) :: rest, ip =>
      if ip < base then false
      else if sameNetwork4 (mask4 bits) ip base then true
      else inCnCidr4 rest ip

/-- The first pair of groups that differ. -/
def firstDifference : List Number → List Number → Option (Number × Number)
  | a :: as, b :: bs => if a ≠ b then some (a, b) else firstDifference as bs
  | _, _ => none

/-- The scan stops at the first network above the address, and passes over every network
that is not the address itself. -/
def inCnCidr6 : List (List Number × Nat) → List Number → Bool
  | [], _ => false
  | (network, bits) :: rest, groups =>
      match firstDifference groups network with
      | some (g, n) => if g.lt n then false else inCnCidr6 rest groups
      | none => if samePrefix6 bits groups network then true else inCnCidr6 rest groups

/-! ## Rules -/

inductive HostMatcher where
  | domain (param : Text)
  | domainSuffix (param : Text)
  | domainKeyword (param : Text)
  | always
  deriving DecidableEq

structure HostRule where
  matcher : HostMatcher
  action : Action
  deriving DecidableEq

structure IpRule where
  base : Nat
  bits : Int
  action : Action
  deriving DecidableEq

structure Ip6Rule where
  groups : List Number
  bits : Int
  action : Action
  deriving DecidableEq

inductive Rule where
  | host (r : HostRule)
  | ip (r : IpRule)
  | ip6 (r : Ip6Rule)
  deriving DecidableEq

def Rule.action : Rule → Action
  | .host r => r.action
  | .ip r => r.action
  | .ip6 r => r.action

variable (cases : CaseMap)

def HostRule.hits (r : HostRule) (host : Text) : Bool :=
  match r.matcher with
  | .domain param => host = cases.toLower param
  | .domainSuffix param =>
      host = cases.toLower param || endsWith host ('.' :: cases.toLower param)
  | .domainKeyword param => includes host (cases.toLower param)
  | .always => true

def IpRule.hits (r : IpRule) (ip : Nat) : Bool := sameNetwork4 (mask4 r.bits) ip r.base

def Ip6Rule.hits (r : Ip6Rule) (groups : List Number) : Bool :=
  samePrefix6 r.bits.toNat groups r.groups

/-- The action a target names, for the four targets a rule can have. -/
def targetAction (target : Text) : Option Action :=
  if target = "DIRECT".toList then some .direct
  else if target = "PROXY".toList then some .proxy
  else if target = "REJECT".toList then some .reject
  else if target = "REJECT-DROP".toList then some .reject
  else none

/-- The parts of a rule line around its commas, trimmed. -/
def lineParts (line : Text) : List Text := ((trim line).splitOn ',').map trim

/-- The last part of a line, which names its target. -/
def lineTarget (line : Text) : Text := cases.toUpper ((lineParts line).getLast?.getD [])

/-- Compile a rule line, `TYPE,param[,param],TARGET`. Comments, other targets and unknown
types yield `none`. -/
def compileRule (line : Text) : Option Rule :=
  let trimmed := trim line
  if trimmed.isEmpty || startsWith trimmed "#".toList || startsWith trimmed "//".toList then none
  else
    (targetAction (lineTarget cases line)).bind fun action =>
      let parts := (lineParts line).dropLast
      let type := cases.toUpper (parts.head?.getD [])
      let param := [','].intercalate parts.tail
      let slash := indexOf param '/'
      let bits := (Number.ofText (sliceAfter param slash)).toInt?
      if type = "DOMAIN".toList then some (.host ⟨.domain param, action⟩)
      else if type = "DOMAIN-SUFFIX".toList then some (.host ⟨.domainSuffix param, action⟩)
      else if type = "DOMAIN-KEYWORD".toList then some (.host ⟨.domainKeyword param, action⟩)
      else if type = "IP-CIDR".toList then
        (ipv4ToInt (sliceTo param slash)).bind fun base =>
          bits.map fun bits => .ip ⟨base, bits, action⟩
      else if type = "IP-CIDR6".toList then
        (ipv6ToGroups (sliceTo param slash)).bind fun groups =>
          bits.map fun bits => .ip6 ⟨groups, bits, action⟩
      else if type = "MATCH".toList then some (.host ⟨.always, action⟩)
      else none

/-! ## The engine -/

structure RuleEngine where
  hostRules : List HostRule := []
  ipRules : List IpRule := []
  ip6Rules : List Ip6Rule := []
  deriving DecidableEq

def RuleEngine.push (engine : RuleEngine) : Rule → RuleEngine
  | .host r => { engine with hostRules := engine.hostRules ++ [r] }
  | .ip r => { engine with ipRules := engine.ipRules ++ [r] }
  | .ip6 r => { engine with ip6Rules := engine.ip6Rules ++ [r] }

/-- The subscription lines that are strings and contain no excluded text. -/
def keptLines (excludeRules : List Text) (subscriptionRules : List Yaml) : List Text :=
  (subscriptionRules.filterMap Yaml.text?).filter fun line => !excludeRules.any (includes line)

/-- The constructor: the lines of both lists, compiled and sorted into the three kinds. -/
def RuleEngine.new (extraRules excludeRules : List Text) (subscriptionRules : List Yaml) :
    RuleEngine :=
  (extraRules ++ keptLines excludeRules subscriptionRules).foldl (fun engine line =>
    match compileRule cases line with
    | some rule => engine.push rule
    | none => engine) {}

def RuleEngine.matchHost (engine : RuleEngine) (host : Text) : Option Action :=
  (engine.hostRules.find? (HostRule.hits cases · host)).map HostRule.action

variable (tables : Tables)

def RuleEngine.matchIp (engine : RuleEngine) (ip : Nat) : Option Action :=
  match engine.ipRules.find? (IpRule.hits · ip) with
  | some rule => some rule.action
  | none => if inCnCidr4 tables.cnCidrs4 ip then some .direct else none

def RuleEngine.matchIp6 (engine : RuleEngine) (groups : List Number) : Option Action :=
  match engine.ip6Rules.find? (Ip6Rule.hits · groups) with
  | some rule => some rule.action
  | none => if inCnCidr6 tables.cnCidrs6 groups then some .direct else none

/-- The parts of a host behind each of its dots. -/
def dotSuffixes : Text → List Text
  | [] => []
  | c :: rest => if c = '.' then rest :: dotSuffixes rest else dotSuffixes rest

/-- The embedded suffix table covers the name. -/
def inCnSuffixes (host : Text) : Bool :=
  tables.cnSuffixes.contains host || endsWith host ".cn".toList ||
    (dotSuffixes host).any tables.cnSuffixes.contains

/-- The decision for a host that is no IP literal. -/
def RuleEngine.decideName (engine : RuleEngine) (host : Text) : Action :=
  match engine.matchHost cases host with
  | some action => action
  | none => if inCnSuffixes tables host then .direct else .proxy

/-- The decision for a raw host string, a name or an IP literal. -/
def RuleEngine.decide (engine : RuleEngine) (rawHost : Text) : Action :=
  let host := trim (cases.toLower rawHost)
  match ipv4ToInt host with
  | some ip => (engine.matchIp tables ip).getD .proxy
  | none =>
      match ipv6ToGroups host with
      | some groups => (engine.matchIp6 tables groups).getD .proxy
      | none => engine.decideName cases tables host

end DshClashProxy.Core.Rules
