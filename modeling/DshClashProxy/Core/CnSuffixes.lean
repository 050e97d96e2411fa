import DshClashProxy.Core.Rules
import DshClashProxy.Lib.Cover
import Mathlib.Data.List.Lex
import Mathlib.Data.List.Sort

/-!
# The embedded domestic suffixes

A suffix covers the hosts that are equal to it or below it. The lookup of `decide` walks over
the dots of a host and so finds exactly what the table covers. The table is built of the last
two or three labels of the listed domains, so it covers these domains, and what lies beside
them where no listed domain is as short.
-/
namespace DshClashProxy.Core.CnSuffixes

open Js Js.Text Rules Lib.Cover

/-- The host is the suffix or lies below it. -/
def Below (host suffix : Text) : Prop := host = suffix ∨ '.' :: suffix <:+ host

instance : DecidableRel Below := fun host suffix =>
  inferInstanceAs (Decidable (host = suffix ∨ '.' :: suffix <:+ host))

/-! ## The table of the build -/

/-- `MULTI_LABEL_CN` -/
def multiLabelCn : List Text :=
  ["com.cn", "net.cn", "org.cn", "gov.cn", "edu.cn", "ac.cn", "mil.cn", "sh.cn", "bj.cn", "tj.cn",
    "cq.cn", "he.cn", "sx.cn", "nm.cn", "ln.cn", "jl.cn", "hl.cn", "js.cn", "zj.cn", "ah.cn",
    "fj.cn", "jx.cn", "sd.cn", "ha.cn", "hb.cn", "hn.cn", "gd.cn", "gx.cn", "hi.cn", "sc.cn",
    "gz.cn", "yn.cn", "xz.cn", "sn.cn", "gs.cn", "qh.cn", "nx.cn", "xj.cn", "tw.cn", "hk.cn",
    "mo.cn"].map String.toList

/-- The name in `/^server=\/([^/]+)\//`. -/
def serverName (line : Text) : Option Text :=
  if startsWith line "server=/".toList then
    (indexOf (line.drop 8) '/').bind fun slash =>
      if slash = 0 then none else some ((line.drop 8).take slash)
  else none

/-- `replace(/^\.+|\.+$/g, "")` -/
def stripDots (name : Text) : Text :=
  ((name.dropWhile (· = '.')).reverse.dropWhile (· = '.')).reverse

/-- `labels.slice(-count).join(".")` -/
def lastLabels (count : Nat) (labels : List Text) : Text :=
  ['.'].intercalate (labels.drop (labels.length - count))

/-- The part of a domain that is kept: its last two labels, or three below a Chinese ending of
two labels. -/
def keep (domain : Text) : Text :=
  let labels := domain.splitOn '.'
  if multiLabelCn.contains (lastLabels 2 labels) && 3 ≤ labels.length then lastLabels 3 labels
  else lastLabels 2 labels

/-- The suffix of one line of the list, if it has one. -/
def lineSuffix (cases : CaseMap) (line : Text) : Option Text :=
  (serverName line).bind fun name =>
    let domain := cases.toLower (stripDots name)
    if domain.isEmpty then none
    else if (domain.splitOn '.').length < 2 then none
    else some (keep domain)

/-- The length that JavaScript counts, in code units. -/
def utf16Length (s : Text) : Nat := (s.map fun c => if c.toNat < 65536 then 1 else 2).sum

/-- The code units of a string. -/
def utf16 (s : Text) : List Nat :=
  s.flatMap fun c =>
    if c.toNat < 65536 then [c.toNat]
    else [0xd800 + (c.toNat - 65536) / 1024, 0xdc00 + (c.toNat - 65536) % 1024]

/-- A kept suffix covers the next. -/
def covered (kept : List Text) (suffix : Text) : Bool :=
  kept.any fun existing => endsWith suffix ('.' :: existing) || suffix = existing

def extractSuffixes (cases : CaseMap) (text : Text) : List Text :=
  let suffixes := ((text.splitOn '\n').filterMap (lineSuffix cases)).eraseDups
  let sorted := suffixes.mergeSort fun a b => utf16Length a ≤ utf16Length b
  (prune covered [] sorted).mergeSort fun a b => utf16 a ≤ utf16 b

/-- A line `server=/d/` of the text lists the domain, taken without leading and trailing dots
and lowercased, and it has at least two labels. -/
def Listed (cases : CaseMap) (text domain : Text) : Prop :=
  (∃ line ∈ text.splitOn '\n', ∃ name rest, line = "server=/".toList ++ name ++ '/' :: rest ∧
    name ≠ [] ∧ '/' ∉ name ∧ domain = cases.toLower (stripDots name)) ∧
  2 ≤ (domain.splitOn '.').length

/-! ## Suffixes -/

theorem below_trans {a b c : Text} (hab : Below a b) (hbc : Below b c) : Below a c := by
  rcases hab with rfl | hab
  · exact hbc
  · rcases hbc with rfl | hbc
    · exact Or.inr hab
    · exact Or.inr ((hbc.trans (List.suffix_cons '.' b)).trans hab)

/-- The walk over the dots meets every suffix that stands behind one. -/
theorem mem_dotSuffixes {host s : Text} : s ∈ dotSuffixes host ↔ '.' :: s <:+ host := by
  induction host with
  | nil => simp [dotSuffixes]
  | cons c rest ih =>
      rw [dotSuffixes, List.suffix_cons_iff, List.cons.injEq]
      by_cases hc : c = '.'
      · rw [if_pos hc, List.mem_cons, ih, hc]
        exact or_congr_left (and_iff_right rfl).symm
      · rw [if_neg hc, ih]
        exact (or_iff_right fun h => hc h.1.symm).symm

theorem covers_iff (tables : Tables) (host : Text) :
    Covers Below tables.cnSuffixes host ↔ host ∈ tables.cnSuffixes ∨
      ∃ s ∈ dotSuffixes host, s ∈ tables.cnSuffixes := by
  simp only [Covers, Below, mem_dotSuffixes]
  constructor
  · intro h
    obtain ⟨s, hs, rfl | hb⟩ := h
    · exact Or.inl hs
    · exact Or.inr ⟨s, hb, hs⟩
  · intro h
    rcases h with h | ⟨s, hb, hs⟩
    · exact ⟨host, h, Or.inl rfl⟩
    · exact ⟨s, hs, Or.inr hb⟩

/-- The lookup finds what the table covers and what ends with `.cn`. -/
theorem inCnSuffixes_iff (tables : Tables) (host : Text) :
    inCnSuffixes tables host = true ↔
      endsWith host ".cn".toList = true ∨ Covers Below tables.cnSuffixes host := by
  rw [inCnSuffixes, Bool.or_eq_true, Bool.or_eq_true, covers_iff, List.any_eq_true]
  simp only [List.contains_iff_mem]
  tauto

/-- The test of a `DOMAIN-SUFFIX` rule. -/
theorem domainSuffix_iff (cases : CaseMap) (param : Text) (action : Action) (host : Text) :
    HostRule.hits cases ⟨.domainSuffix param, action⟩ host = true ↔
      Below host (cases.toLower param) := by
  simp only [HostRule.hits, Below, Bool.or_eq_true, decide_eq_true_eq, endsWith,
    List.isSuffixOf_iff_suffix]

/-- The walk over the dots decides as one `DOMAIN-SUFFIX` rule for each suffix would. -/
theorem decide_suffixes (cases : CaseMap) (tables : Tables)
    (hlower : ∀ s ∈ tables.cnSuffixes, cases.toLower s = s) (engine : RuleEngine)
    {rawHost host : Text} (hhost : trim (cases.toLower rawHost) = host)
    (h4 : ipv4ToInt host = none) (h6 : ipv6ToGroups host = none)
    (hrule : engine.matchHost cases host = none) :
    (engine.decide cases tables rawHost = .direct ↔ endsWith host ".cn".toList = true ∨
      ∃ s ∈ tables.cnSuffixes, HostRule.hits cases ⟨.domainSuffix s, .direct⟩ host = true) ∧
    (engine.decide cases tables rawHost ≠ .direct →
      engine.decide cases tables rawHost = .proxy) := by
  have hdecide : engine.decide cases tables rawHost =
      if inCnSuffixes tables host = true then .direct else .proxy := by
    simp only [RuleEngine.decide, hhost, h4, h6, RuleEngine.decideName, hrule]
  have hcovers : (∃ s ∈ tables.cnSuffixes,
      HostRule.hits cases ⟨.domainSuffix s, .direct⟩ host = true) ↔
      Covers Below tables.cnSuffixes host := by
    refine exists_congr fun s => and_congr_right fun hs => ?_
    rw [domainSuffix_iff, hlower s hs]
  rw [hdecide, hcovers, ← inCnSuffixes_iff]
  by_cases hin : inCnSuffixes tables host = true
  · rw [if_pos hin]
    exact ⟨iff_of_true rfl hin, fun hne => absurd rfl hne⟩
  · rw [if_neg hin]
    exact ⟨iff_of_false (by decide) hin, fun _ => rfl⟩

/-- A table with one suffix, and a host as a client may spell it. -/
def exampleTables : Tables := { cnSuffixes := ["example.com".toList] }

theorem example_direct :
    ({} : RuleEngine).decide .ascii exampleTables " WWW.Example.com".toList = .direct := by
  have hlower : ∀ s ∈ exampleTables.cnSuffixes, CaseMap.ascii.toLower s = s := by decide
  have hhost : trim (CaseMap.ascii.toLower " WWW.Example.com".toList) = "www.example.com".toList :=
    by decide
  exact (decide_suffixes .ascii exampleTables hlower {} hhost (by decide) (by decide) rfl).1.mpr
    (Or.inr ⟨"example.com".toList, List.mem_singleton_self _, by decide⟩)

/-! ## What the table of the build covers -/

theorem serverName_eq_some {line name : Text} : serverName line = some name ↔
    ∃ rest, line = "server=/".toList ++ name ++ '/' :: rest ∧ name ≠ [] ∧ '/' ∉ name := by
  constructor
  · intro h
    rw [serverName, Option.ite_none_right_eq_some, startsWith, List.isPrefixOf_iff_prefix,
      Option.bind_eq_some_iff] at h
    obtain ⟨⟨tail, rfl⟩, slash, hslash, hname⟩ := h
    rw [show ("server=/".toList ++ tail).drop 8 = tail from rfl] at hslash hname
    rw [Option.ite_none_left_eq_some, Option.some.injEq] at hname
    obtain ⟨htail, hnot⟩ := split_at_indexOf hslash
    obtain ⟨hpos, rfl⟩ := hname
    refine ⟨tail.drop (slash + 1), ?_, ?_, hnot⟩
    · rw [List.append_assoc, ← htail]
    · intro he
      rcases List.take_eq_nil_iff.mp he with h0 | hnil
      · exact hpos h0
      · rw [hnil] at htail
        simp at htail
  · intro h
    obtain ⟨rest, rfl, hne, hnot⟩ := h
    have hstart : startsWith ("server=/".toList ++ name ++ '/' :: rest) "server=/".toList = true :=
      List.isPrefixOf_iff_prefix.mpr
        (by rw [List.append_assoc]; exact List.prefix_append _ _)
    have hdrop : ("server=/".toList ++ name ++ '/' :: rest).drop 8 = name ++ '/' :: rest := rfl
    have hlen : name.length ≠ 0 := fun h => hne (List.length_eq_zero_iff.mp h)
    rw [serverName, if_pos hstart, hdrop, indexOf_append hnot, Option.bind_some, if_neg hlen,
      List.take_left]

/-- The lines that yield a suffix are those that list a domain of two labels or more. -/
theorem lineSuffix_eq_some {cases : CaseMap} {line s : Text} : lineSuffix cases line = some s ↔
    ∃ name, serverName line = some name ∧
      2 ≤ ((cases.toLower (stripDots name)).splitOn '.').length ∧
      s = keep (cases.toLower (stripDots name)) := by
  rw [lineSuffix, Option.bind_eq_some_iff]
  refine exists_congr fun name => and_congr_right fun _ => ?_
  dsimp only
  generalize cases.toLower (stripDots name) = domain
  by_cases hempty : domain = []
  · subst hempty
    simp
  · rw [if_neg (by simpa using hempty), Option.ite_none_left_eq_some, Nat.not_lt,
      Option.some.injEq, eq_comm]

theorem mem_lineSuffixes {cases : CaseMap} {text s : Text} :
    s ∈ (text.splitOn '\n').filterMap (lineSuffix cases) ↔
      ∃ domain, Listed cases text domain ∧ s = keep domain := by
  simp only [List.mem_filterMap, lineSuffix_eq_some, serverName_eq_some, Listed]
  constructor
  · intro h
    obtain ⟨line, hline, name, ⟨rest, hspells, hne, hnot⟩, hlabels, rfl⟩ := h
    exact ⟨_, ⟨⟨line, hline, name, rest, hspells, hne, hnot, rfl⟩, hlabels⟩, rfl⟩
  · intro h
    obtain ⟨domain, ⟨⟨line, hline, name, rest, hspells, hne, hnot, rfl⟩, hlabels⟩, rfl⟩ := h
    exact ⟨line, hline, name, ⟨rest, hspells, hne, hnot⟩, hlabels, rfl⟩

/-- A domain lies below its last labels. -/
theorem below_lastLabels {count : Nat} (hc : count ≠ 0) (domain : Text) :
    Below domain (lastLabels count (domain.splitOn '.')) := by
  rw [lastLabels]
  generalize hlabels : domain.splitOn '.' = labels
  have hdomain : ['.'].intercalate labels = domain := by
    rw [← hlabels, List.intercalate_splitOn]
  have hne : labels ≠ [] := hlabels ▸ List.splitOn_ne_nil _ _
  have hlen : 0 < labels.length := List.length_pos_of_ne_nil hne
  by_cases hall : labels.length ≤ count
  · left
    rw [Nat.sub_eq_zero_of_le hall, List.drop_zero, hdomain]
  · right
    have hfront : labels.take (labels.length - count) ≠ [] :=
      List.ne_nil_of_length_pos (by rw [List.length_take]; omega)
    have hback : labels.drop (labels.length - count) ≠ [] :=
      List.ne_nil_of_length_pos (by rw [List.length_drop]; omega)
    have hjoin := intercalate_append (c := '.') hfront hback
    rw [List.take_append_drop, hdomain] at hjoin
    rw [hjoin]
    exact List.suffix_append _ _

theorem below_keep (domain : Text) : Below domain (keep domain) := by
  rw [keep]
  split
  · exact below_lastLabels (by decide) domain
  · exact below_lastLabels (by decide) domain

theorem covered_iff {kept : List Text} {s : Text} :
    covered kept s = true ↔ Covers Below kept s := by
  simp only [covered, List.any_eq_true, Bool.or_eq_true, endsWith, List.isSuffixOf_iff_suffix,
    decide_eq_true_eq, Covers, Below, or_comm]

/-! ## The removal of covered suffixes -/

/-- The loop over the suffixes, the shorter ones first. -/
def uncovered (suffixes : List Text) : List Text :=
  prune covered [] (suffixes.mergeSort fun a b => utf16Length a ≤ utf16Length b)

theorem extractSuffixes_eq (cases : CaseMap) (text : Text) :
    extractSuffixes cases text =
      (uncovered ((text.splitOn '\n').filterMap (lineSuffix cases)).eraseDups).mergeSort
        fun a b => utf16 a ≤ utf16 b := rfl

theorem utf16Length_append (a b : Text) : utf16Length (a ++ b) = utf16Length a + utf16Length b := by
  rw [utf16Length, List.map_append, List.sum_append]
  rfl

/-- A host is longer than the suffixes it lies below. -/
theorem eq_or_shorter {host suffix : Text} (h : Below host suffix) :
    host = suffix ∨ utf16Length suffix < utf16Length host := by
  refine h.imp_right fun hsuffix => ?_
  obtain ⟨front, rfl⟩ := hsuffix
  have hdot : utf16Length ('.' :: suffix) = 1 + utf16Length suffix := rfl
  rw [utf16Length_append, hdot]
  omega

theorem covers_uncovered (suffixes : List Text) (host : Text) :
    Covers Below (uncovered suffixes) host ↔ Covers Below suffixes host := by
  have hnil : ¬ Covers Below [] host := by simp [Covers]
  have htrans : ∀ a b c, Below a b → Below b c → Below a c := fun _ _ _ => below_trans
  have hcovered : ∀ kept s, covered kept s = true → Covers Below kept s :=
    fun _ _ => covered_iff.mp
  rw [uncovered, covers_prune htrans hcovered, or_iff_right hnil,
    covers_congr fun s => List.mem_mergeSort]

/-- The suffixes that are kept cover what all of them cover, and none of them covers another. -/
theorem uncovered_antichain (suffixes : List Text) :
    (∀ host, Covers Below (uncovered suffixes) host ↔ Covers Below suffixes host) ∧
      (uncovered suffixes).Pairwise fun a b => ¬ Below a b ∧ ¬ Below b a := by
  refine ⟨covers_uncovered suffixes, ?_⟩
  have hsorted : (suffixes.mergeSort fun a b => utf16Length a ≤ utf16Length b).Pairwise
      fun a b => utf16Length a ≤ utf16Length b := by
    refine (List.pairwise_mergeSort (fun a b c hab hbc => ?_) (fun a b => ?_) suffixes).imp
      of_decide_eq_true
    · exact decide_eq_true ((of_decide_eq_true hab).trans (of_decide_eq_true hbc))
    · simpa using Nat.le_total (utf16Length a) (utf16Length b)
  exact prune_antichain (fun _ _ => eq_or_shorter) (fun _ _ => covered_iff.mpr) List.Pairwise.nil
    (fun k hk => absurd hk List.not_mem_nil) hsorted

/-- Sorting, deduplication and the removal of covered entries leave the coverage alone. -/
theorem covers_extractSuffixes (cases : CaseMap) (text host : Text) :
    Covers Below (extractSuffixes cases text) host ↔
      ∃ domain, Listed cases text domain ∧ Below host (keep domain) := by
  have hlines : Covers Below ((text.splitOn '\n').filterMap (lineSuffix cases)) host ↔
      ∃ domain, Listed cases text domain ∧ Below host (keep domain) := by
    simp only [Covers, mem_lineSuffixes]
    constructor
    · intro h
      obtain ⟨s, ⟨domain, hlisted, rfl⟩, hb⟩ := h
      exact ⟨domain, hlisted, hb⟩
    · intro h
      obtain ⟨domain, hlisted, hb⟩ := h
      exact ⟨_, ⟨domain, hlisted, rfl⟩, hb⟩
  rw [extractSuffixes_eq, covers_congr fun s => List.mem_mergeSort, covers_uncovered,
    covers_congr fun s => List.mem_eraseDups, hlines]

/-- Every host at or below a listed domain is covered. -/
theorem covers_of_listed {cases : CaseMap} {text host domain : Text}
    (h : Listed cases text domain) (hb : Below host domain) :
    Covers Below (extractSuffixes cases text) host :=
  (covers_extractSuffixes cases text host).mpr ⟨domain, h, below_trans hb (below_keep domain)⟩

/-- The kept part of each listed domain is at or below a domain that is itself listed. -/
def KeepsListed (cases : CaseMap) (text : Text) : Prop :=
  ∀ domain, Listed cases text domain →
    ∃ listed, Listed cases text listed ∧ Below (keep domain) listed

/-- The table covers what the list covers exactly when no domain is cut to a part above all the
listed ones. -/
theorem extractSuffixes_covers_iff (cases : CaseMap) (text : Text) :
    (∀ host, Covers Below (extractSuffixes cases text) host ↔
      ∃ domain, Listed cases text domain ∧ Below host domain) ↔ KeepsListed cases text := by
  constructor
  · intro h domain hlisted
    -- the kept part is itself a host that the table covers
    exact (h (keep domain)).mp
      ((covers_extractSuffixes cases text _).mpr ⟨domain, hlisted, Or.inl rfl⟩)
  · intro hkeeps host
    constructor
    · intro hcovered
      obtain ⟨domain, hlisted, hb⟩ := (covers_extractSuffixes cases text host).mp hcovered
      obtain ⟨listed, hl, habove⟩ := hkeeps domain hlisted
      exact ⟨listed, hl, below_trans hb habove⟩
    · intro hlisted
      obtain ⟨domain, hl, hb⟩ := hlisted
      exact covers_of_listed hl hb

/-- A list with one domain, below an ending that is not among `multiLabelCn`. -/
def exampleList : Text := "server=/a.com.hk/114.114.114.114".toList

/-- The table covers the whole of `com.hk`. -/
theorem registry_covered :
    ¬ ∀ (text host : Text), Covers Below (extractSuffixes .ascii text) host ↔
      ∃ domain, Listed .ascii text domain ∧ Below host domain := by
  intro h
  have hlines : exampleList.splitOn '\n' = [exampleList] := by decide
  have hcovered : Covers Below (extractSuffixes .ascii exampleList) "www.google.com.hk".toList := by
    rw [covers_extractSuffixes]
    refine ⟨"a.com.hk".toList, ⟨⟨exampleList, by rw [hlines]; simp, ?_⟩, by decide⟩, by decide⟩
    exact ⟨"a.com.hk".toList, "114.114.114.114".toList, rfl, by decide, by decide, by decide⟩
  obtain ⟨domain, ⟨⟨line, hline, name, rest, hspells, hne, hnot, rfl⟩, -⟩, hb⟩ :=
    (h exampleList "www.google.com.hk".toList).mp hcovered
  rw [hlines, List.mem_singleton] at hline
  subst hline
  have hname := serverName_eq_some.mpr ⟨rest, hspells, hne, hnot⟩
  rw [show serverName exampleList = some "a.com.hk".toList from by decide,
    Option.some.injEq] at hname
  subst hname
  exact absurd hb (by decide)

end DshClashProxy.Core.CnSuffixes
