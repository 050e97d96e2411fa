import DshClashProxy.Core.Client
import DshClashProxy.Core.RuleOrder

/-!
# The host of a target in each inbound form

A target reaches the rule engine through the SOCKS5 request parser, the CONNECT handler or
the URL parser. Names and IPv4 addresses arrive the same way. An IPv6 address arrives as
plain groups over SOCKS5 and in brackets over HTTP, where the engine takes it for a name.
-/
namespace DshClashProxy.Core.InboundHost

open Js Js.Text Rules ProxyServer Client

/-! ## Targets -/

/-- The last label of a name, a trailing dot aside. -/
def lastLabel (s : Text) : Text :=
  match (s.splitOn '.').reverse with
  | [] :: last :: _ => last
  | last :: _ => last
  | [] => []

/-- A last label that makes the URL parser take a host for an IPv4 address. -/
def isNumeric : Text → Bool
  | '0' :: 'x' :: s => s.all (Number.isDigit 16)
  | '0' :: 'X' :: s => s.all (Number.isDigit 16)
  | s => !s.isEmpty && s.all (Number.isDigit 10)

/-- A letter, a digit, a hyphen, an underscore or a dot. -/
def isNameChar (c : Char) : Bool :=
  let n := c.toNat
  (48 ≤ n && n ≤ 57) || (65 ≤ n && n ≤ 90) || (97 ≤ n && n ≤ 122) || c = '-' || c = '_' || c = '.'

structure DomainName where
  text : Text
  ne_nil : text ≠ []
  length_le : text.length ≤ 255
  letters : ∀ c ∈ text, isNameChar c = true
  named : isNumeric (lastLabel text) = false

inductive Target where
  | name (d : DomainName)
  | ip4 (octets : Bytes) (h : octets.length = 4)
  | ip6 (octets : Bytes) (h : octets.length = 16)

def dotted (octets : Bytes) : Text := ['.'].intercalate (octets.map fun b => decimal b.toNat)

/-- The eight groups of an IPv6 address. -/
def groups (octets : Bytes) : List Nat :=
  (List.range 8).map fun i => (Bytes.readUInt16BE octets (i * 2)).getD 0

/-- The groups as the rule engine has them. -/
def numbers (octets : Bytes) : List Number := (groups octets).map fun n : Nat => .finite n

def bracketed (s : Text) : Text := '[' :: s ++ [']']

/-- One to four hex digits. -/
def SpellsGroup (n : Nat) (s : Text) : Prop :=
  s ≠ [] ∧ s.length ≤ 4 ∧ s.all (Number.isDigit 16) = true ∧ Number.ofDigits 16 s = n

instance (n : Nat) (s : Text) : Decidable (SpellsGroup n s) :=
  inferInstanceAs (Decidable (_ ∧ _))

/-- Pieces that spell groups, the last two of which may be dotted. -/
inductive Spells : List Nat → List Text → Prop where
  | nil : Spells [] []
  | group {n : Nat} {s : Text} {ns : List Nat} {ss : List Text} :
      SpellsGroup n s → Spells ns ss → Spells (n :: ns) (s :: ss)
  | quad (a b c d : UInt8) :
      Spells [a.toNat * 256 + b.toNat, c.toNat * 256 + d.toNat] [dotted [a, b, c, d]]

/-- The textual forms of eight groups. -/
inductive SpellsAddress : List Nat → Text → Prop where
  | full {ns : List Nat} {ss : List Text} : Spells ns ss → SpellsAddress ns ([':'].intercalate ss)
  | compressed {left right : List Nat} {ls rs : List Text} (k : Nat) : 0 < k →
      List.Forall₂ SpellsGroup left ls → Spells right rs →
      SpellsAddress (left ++ List.replicate k 0 ++ right)
        ([':'].intercalate ls ++ "::".toList ++ [':'].intercalate rs)

/-! ## Hosts -/

/-- The address as a SOCKS5 request carries it. -/
def Target.address : Target → Address
  | name d =>
      .name (Bytes.ofAscii d.text) (by rw [Bytes.ofAscii, List.length_map]; exact d.length_le)
  | ip4 octets h => .ip4 octets h
  | ip6 octets h => .ip6 octets h

/-- The host of a CONNECT authority for the target. -/
def Target.Names : Target → Text → Prop
  | name d, s => s = d.text
  | ip4 octets _, s => s = dotted octets
  | ip6 octets _, s => ∃ form, SpellsAddress (groups octets) form ∧ s = bracketed form

/-- A group without its leading zeros. -/
def shorten (s : Text) : Text :=
  match s.dropWhile (· = '0') with
  | [] => ['0']
  | t => t

/-- Start and length of the first longest run of zeros. -/
def longestRun (ns : List Nat) : Nat × Nat :=
  (List.range ns.length).foldl (fun best i =>
    let run := ((ns.drop i).takeWhile (· = 0)).length
    if best.2 < run then (i, run) else best) (0, 0)

/-- The compressed form of an IPv6 address. -/
def compressed (octets : Bytes) : Text :=
  let texts := (groupTexts octets).map shorten
  let (start, length) := longestRun (groups octets)
  if length < 2 then [':'].intercalate texts
  else [':'].intercalate (texts.take start) ++ "::".toList ++
    [':'].intercalate (texts.drop (start + length))

/-- `url.hostname` of a URL with the target as its host. -/
def Target.hostname : Target → Text
  | name d => d.text.map Char.toLower
  | ip4 octets _ => dotted octets
  | ip6 octets _ => bracketed (compressed octets)

/-- The same target and port in a SOCKS5 request and in a CONNECT authority. -/
structure Arrival (t : Target) where
  host : Text
  names : t.Names host
  port : Nat
  port_lt : port < 65536

variable (cases : CaseMap) (tables : Tables) (engine : RuleEngine)

/-- The decision for the host that the SOCKS5 parser extracts. -/
def viaSocks5 {t : Target} (a : Arrival t) : Option Action :=
  (readSocks5Request (Request.encode ⟨t.address, a.port, a.port_lt⟩)).map fun r =>
    engine.decide cases tables r.1

/-- The decision for the host that the CONNECT handler extracts. -/
def viaConnect {t : Target} (a : Arrival t) : Option Action :=
  (connectTarget (a.host ++ ':' :: decimal a.port)).map fun r => engine.decide cases tables r.1

/-- The decision for the host of an absolute-form request. -/
def viaAbsolute (t : Target) : Action := engine.decide cases tables t.hostname

/-- What the IPv6 rules and the IPv6 table say. -/
def ip6Route (octets : Bytes) : Action :=
  (engine.matchIp6 tables ((groups octets).map fun n : Nat => Number.finite n)).getD .proxy

/-- The three inbound forms of a target get the same decision, which for an IPv6 address is
that of the IPv6 rules. -/
structure SameRoute {t : Target} (a : Arrival t) : Prop where
  connect : viaConnect cases tables engine a = viaSocks5 cases tables engine a
  absolute : some (viaAbsolute cases tables engine t) = viaSocks5 cases tables engine a
  ip6 : ∀ octets h, t = .ip6 octets h →
    viaSocks5 cases tables engine a = some (ip6Route tables engine octets)

/-- The suffix table holds the text, or a part of it behind a dot. -/
def ListedSuffix (text : Text) : Prop :=
  text ∈ tables.cnSuffixes ∨ ∃ s ∈ dotSuffixes text, s ∈ tables.cnSuffixes

/-- The rules and the table for names say of a text in brackets what those for IPv6 say of the
address: the first rules that hit have one action; a rule without a counterpart has the action that
the other table leads to; and without any rule the two tables list both or neither. -/
structure NamesFollow (text : Text) (octets : Bytes) : Prop where
  rules : ∀ r ∈ engine.hostRules.find? (HostRule.hits cases · text),
    ∀ q ∈ engine.ip6Rules.find? (Ip6Rule.hits · (numbers octets)), r.action = q.action
  hostRule : (∀ q ∈ engine.ip6Rules, Ip6Rule.hits q (numbers octets) = false) →
    ∀ r ∈ engine.hostRules.find? (HostRule.hits cases · text), r.action ≠ .reject ∧
      (r.action = .direct ↔ inCnCidr6 tables.cnCidrs6 (numbers octets) = true)
  ip6Rule : (∀ r ∈ engine.hostRules, HostRule.hits cases r text = false) →
    ∀ q ∈ engine.ip6Rules.find? (Ip6Rule.hits · (numbers octets)), q.action ≠ .reject ∧
      (q.action = .direct ↔ ListedSuffix tables text)
  tables : (∀ r ∈ engine.hostRules, HostRule.hits cases r text = false) →
    (∀ q ∈ engine.ip6Rules, Ip6Rule.hits q (numbers octets) = false) →
    (ListedSuffix tables text ↔ inCnCidr6 tables.cnCidrs6 (numbers octets) = true)

/-- A name or an IPv4 address, or an IPv6 address that both its texts in brackets follow. -/
def Follows {t : Target} (a : Arrival t) : Prop :=
  match t with
  | .ip6 octets _ =>
      NamesFollow cases tables engine (a.host.map Char.toLower) octets ∧
        NamesFollow cases tables engine (bracketed (compressed octets)) octets
  | _ => True

variable {cases tables engine}

/-! ## Names and IPv4 addresses -/

theorem decide_toLower {s : Text} (h : IsAscii s) :
    engine.decide cases tables (s.map Char.toLower) = engine.decide cases tables s := by
  have hs : cases.toLower (s.map Char.toLower) = cases.toLower s := by
    rw [cases.toLower_ascii _ (isAscii_toLower h), cases.toLower_ascii _ h, List.map_map]
    apply List.map_congr_left
    intro c hc
    exact toLower_toLower (h c hc)
  simp only [RuleEngine.decide, hs]

theorem isAscii_name (d : DomainName) : IsAscii d.text := by
  intro c hc
  have h := d.letters c hc
  simp only [isNameChar, Bool.or_eq_true, Bool.and_eq_true, decide_eq_true_eq] at h
  rcases h with ((h | rfl) | rfl) | rfl
  · omega
  · decide
  · decide
  · decide

/-! ## Bracketed hosts -/

theorem ofText_bracket (t : Text) : Number.ofText ('[' :: t) = .nan := by
  obtain ⟨t', ht⟩ := trim_cons (c := '[') (by decide) t
  have hd : Number.isDigit 10 '[' = false := by decide
  simp [Number.ofText, ht, Number.splitSign, Number.readDecimal, hd]

theorem parseHex_bracket (t : Text) : Number.parseHex ('[' :: t) = .nan := by
  have hd : Number.isDigit 16 '[' = false := by decide
  simp [Number.parseHex, trimStart_cons (c := '[') (s := t) (by decide), Number.splitSign, hd]

theorem ipv4ToInt_bracket (t : Text) : ipv4ToInt ('[' :: t) = none := by
  obtain ⟨p, ps, hp⟩ := splitOn_cons t (show '[' ≠ '.' by decide)
  have ho : octet ('[' :: p) = none := by rw [octet, ofText_bracket]; rfl
  rw [ipv4ToInt, hp, List.mapM_cons, ho]
  rfl

theorem hexGroups_bracket (t : Text) : (hexGroups ('[' :: t)).any Number.isNaN = true := by
  obtain ⟨p, ps, hp⟩ := splitOn_cons t (show '[' ≠ ':' by decide)
  simp [hexGroups, hp, parseHex_bracket, Number.isNaN]

theorem ipv6ToGroups_bracket (t : Text) : ipv6ToGroups ('[' :: t) = none := by
  obtain ⟨p, ps, hp⟩ := split_cons t (show "::".toList.isPrefixOf ('[' :: t) = false from rfl)
  have ha := hexGroups_bracket p
  have hb := hexGroups_bracket t
  simp only [hexGroups, List.isEmpty_cons, Bool.false_eq_true, if_false] at hb
  rw [ipv6ToGroups, hp]
  cases ps with
  | nil => simp [hb]
  | cons right rest => simp [ha]

theorem lower_bracketed (s : Text) :
    (bracketed s).map Char.toLower = bracketed (s.map Char.toLower) := by
  rw [bracketed, bracketed, List.map_append, List.map_cons]
  rfl

/-- A host in brackets is taken for a name. -/
theorem decide_bracketed {s : Text} (h : IsAscii s) :
    engine.decide cases tables (bracketed s) =
      engine.decideName cases tables ((bracketed s).map Char.toLower) := by
  have hascii : IsAscii (bracketed s) := by
    intro c hc
    rw [bracketed, List.mem_append, List.mem_cons, List.mem_singleton] at hc
    rcases hc with (rfl | hc) | rfl
    · decide
    · exact h c hc
    · decide
  have hlower : (bracketed s).map Char.toLower = '[' :: s.map Char.toLower ++ [']'] :=
    lower_bracketed s
  have htrim : trim ((bracketed s).map Char.toLower) = (bracketed s).map Char.toLower := by
    rw [hlower]
    apply trim_of_ends
    · intro c hc
      cases hc
      decide
    · intro c hc
      rw [List.getLast?_append, List.getLast?_singleton] at hc
      cases hc
      decide
  simp only [RuleEngine.decide]
  rw [cases.toLower_ascii _ hascii, htrim, hlower, List.cons_append, ipv4ToInt_bracket,
    ipv6ToGroups_bracket]

/-! ## IPv6 groups -/

theorem isDigit_digitChar : ∀ n, n < 16 → Number.isDigit 16 (Nat.digitChar n) = true := by decide

theorem digitValue_digitChar : ∀ n, n < 16 → Number.digitValue (Nat.digitChar n) = n := by decide

/-- Two bytes in hex are read back as the group they are. -/
theorem parseHex_hex (a b : UInt8) :
    Number.parseHex (Bytes.hex [a, b]) = .finite ((a.toNat * 256 + b.toNat : Nat) : ℚ) := by
  have ha := a.toNat_lt
  have hb := b.toNat_lt
  have hdigits : ∀ c ∈ Bytes.hex [a, b], Number.isDigit 16 c = true := by
    intro c hc
    simp only [Bytes.hex, List.flatMap_cons, List.flatMap_nil, List.append_nil, List.cons_append,
      List.nil_append, List.mem_cons, List.not_mem_nil, or_false] at hc
    rcases hc with rfl | rfl | rfl | rfl <;> exact isDigit_digitChar _ (by omega)
  have hvalue : Number.ofDigits 16 (Bytes.hex [a, b]) = a.toNat * 256 + b.toNat := by
    have h1 := digitValue_digitChar (a.toNat / 16) (by omega)
    have h2 := digitValue_digitChar (a.toNat % 16) (by omega)
    have h3 := digitValue_digitChar (b.toNat / 16) (by omega)
    have h4 := digitValue_digitChar (b.toNat % 16) (by omega)
    simp only [Bytes.hex, List.flatMap_cons, List.flatMap_nil, List.append_nil, List.cons_append,
      List.nil_append, Number.ofDigits, List.foldl_cons, List.foldl_nil, h1, h2, h3, h4]
    omega
  have hne : Bytes.hex [a, b] ≠ [] := by simp [Bytes.hex]
  rw [Number.parseHex_of_digits hne hdigits, hvalue]
  exact Number.round_natCast (by omega)

/-- A text that starts with a character `p` lacks is found behind `p`, if it is found. -/
theorem infix_of_append {d : Char} {sep p s : Text} (hp : d ∉ p) (h : d :: sep <:+: p ++ s) :
    d :: sep <:+: s := by
  induction p with
  | nil => exact h
  | cons c p ih =>
      rw [List.mem_cons, not_or] at hp
      rw [List.cons_append, List.infix_cons_iff] at h
      rcases h with hpre | h
      · obtain ⟨_, ht⟩ := hpre
        exact absurd (List.cons.inj ht).1 hp.1
      · exact ih hp.2 h

theorem head?_intercalate {sep q : Text} (hq : q ≠ []) (rest : List Text) :
    (sep.intercalate (q :: rest)).head? = q.head? := by
  cases rest with
  | nil => rw [List.intercalate_singleton]
  | cons r rest =>
      rw [List.intercalate_cons_cons, List.append_assoc, List.head?_append_of_ne_nil _ hq]

/-- No separator of two colons occurs between groups that hold no colon. -/
theorem not_infix_colons {pieces : List Text} (h : ∀ p ∈ pieces, p ≠ [] ∧ ':' ∉ p) :
    ¬ "::".toList <:+: [':'].intercalate pieces := by
  intro hi
  induction pieces with
  | nil => exact absurd hi (by decide)
  | cons p rest ih =>
      have hr : ∀ q ∈ rest, q ≠ [] ∧ ':' ∉ q := fun q hq => h q (List.mem_cons_of_mem _ hq)
      have hp := h p (by simp)
      match rest with
      | [] =>
          rw [List.intercalate_singleton, ← List.append_nil p] at hi
          exact absurd (infix_of_append hp.2 hi) (by decide)
      | q :: rest =>
          obtain ⟨hne, hq⟩ := hr q (by simp)
          rw [List.intercalate_cons_cons, List.append_assoc] at hi
          have hi := infix_of_append hp.2 hi
          rw [List.singleton_append, List.infix_cons_iff] at hi
          rcases hi with hpre | hi
          · -- the second colon would be the first character of the next group
            have hhead : ([':'].intercalate (q :: rest)).head? = some ':' := by
              obtain ⟨u, hu⟩ := hpre
              rw [← (List.cons.inj hu).2]
              rfl
            rw [head?_intercalate hne] at hhead
            exact hq (List.mem_of_head? hhead)
          · exact ih hr hi

/-- A group is two bytes, in the text and in the number. -/
theorem group_bytes {octets : Bytes} (h : octets.length = 16) {i : Nat} (hi : i < 8) :
    ∃ a b, octets.subarray (i * 2) (i * 2 + 2) = [a, b] ∧
      Bytes.readUInt16BE octets (i * 2) = some (a.toNat * 256 + b.toNat) := by
  have hl : 2 ≤ (octets.drop (i * 2)).length := by rw [List.length_drop]; omega
  match hd : octets.drop (i * 2), hl with
  | a :: b :: t, _ =>
      refine ⟨a, b, ?_, ?_⟩
      · rw [Bytes.subarray, List.drop_take, hd, Nat.add_sub_cancel_left]
        rfl
      · rw [Bytes.readUInt16BE, hd]

theorem mem_hex {b : Bytes} {c : Char} (h : c ∈ Bytes.hex b) : ∃ n < 16, c = Nat.digitChar n := by
  obtain ⟨x, _, hc⟩ := List.mem_flatMap.mp h
  have hx := x.toNat_lt
  simp only [List.mem_cons, List.not_mem_nil, or_false] at hc
  rcases hc with rfl | rfl
  · exact ⟨x.toNat / 16, by omega, rfl⟩
  · exact ⟨x.toNat % 16, by omega, rfl⟩

theorem mem_groupTexts {octets p : List _} {c : Char} (hp : p ∈ groupTexts octets) (hc : c ∈ p) :
    ∃ n < 16, c = Nat.digitChar n := by
  obtain ⟨i, _, rfl⟩ := List.mem_map.mp hp
  exact mem_hex hc

/-- The text of the groups is made of lower-case hex digits and colons. -/
theorem groupText_chars (octets : Bytes) {P : Char → Prop} (hcolon : P ':')
    (hdigit : ∀ n < 16, P (Nat.digitChar n)) :
    ∀ c ∈ [':'].intercalate (groupTexts octets), P c := by
  intro c hc
  rcases mem_intercalate hc with hc | ⟨p, hp, hc⟩
  · rw [List.mem_singleton.mp hc]
    exact hcolon
  · obtain ⟨n, hn, rfl⟩ := mem_groupTexts hp hc
    exact hdigit n hn

theorem ipv6ToGroups_groupTexts {octets : Bytes} (h : octets.length = 16) :
    ipv6ToGroups ([':'].intercalate (groupTexts octets)) =
      some ((groups octets).map fun n : Nat => Number.finite n) := by
  have hsized := groupTexts_sized h
  have hsplit : ([':'].intercalate (groupTexts octets)).splitOn ':' = groupTexts octets :=
    List.splitOn_intercalate ':' (fun p hp => (hsized p hp).2) (by simp [groupTexts])
  have hparse : (groupTexts octets).map Number.parseHex =
      (groups octets).map fun n : Nat => Number.finite n := by
    rw [groupTexts, groups, List.map_map, List.map_map]
    apply List.map_congr_left
    intro i hi
    obtain ⟨a, b, hs, hr⟩ := group_bytes h (List.mem_range.mp hi)
    simp only [Function.comp_apply, hs, hr, Option.getD_some, parseHex_hex]
  have hlen : ((groups octets).map fun n : Nat => Number.finite n).length = 8 := by simp [groups]
  have hnan : ((groups octets).map fun n : Nat => Number.finite n).any Number.isNaN = false := by
    simp [Number.isNaN]
  have hpieces : ∀ p ∈ groupTexts octets, p ≠ [] ∧ ':' ∉ p := fun p hp =>
    ⟨List.ne_nil_of_length_pos (Nat.lt_of_lt_of_le two_pos (hsized p hp).1), (hsized p hp).2⟩
  rw [ipv6ToGroups, split_of_not_infix (not_infix_colons hpieces)]
  simp only [hsplit, hparse, hlen, hnan]
  rfl

/-- The plain text of the groups gets the decision of the IPv6 rules. -/
theorem decide_groupTexts {octets : Bytes} (h : octets.length = 16) :
    engine.decide cases tables ([':'].intercalate (groupTexts octets)) =
      ip6Route tables engine octets := by
  have hascii : IsAscii ([':'].intercalate (groupTexts octets)) :=
    groupText_chars octets (by decide) (by decide)
  have hlower : ([':'].intercalate (groupTexts octets)).map Char.toLower =
      [':'].intercalate (groupTexts octets) := by
    conv_rhs => rw [← List.map_id ([':'].intercalate (groupTexts octets))]
    apply List.map_congr_left
    exact groupText_chars octets (by decide) (by decide)
  have htrim : trim ([':'].intercalate (groupTexts octets)) =
      [':'].intercalate (groupTexts octets) :=
    trim_of_no_space (groupText_chars octets (by decide) (by decide))
  have hdot : '.' ∉ [':'].intercalate (groupTexts octets) := fun hm =>
    groupText_chars octets (P := fun c => c ≠ '.') (by decide) (by decide) '.' hm rfl
  have h4 : ipv4ToInt ([':'].intercalate (groupTexts octets)) = none := by
    rw [ipv4ToInt, List.splitOn_eq_singleton hdot, List.mapM_cons, List.mapM_nil]
    cases octet ([':'].intercalate (groupTexts octets)) <;> rfl
  simp only [RuleEngine.decide]
  rw [cases.toLower_ascii _ hascii, hlower, htrim, h4]
  simp only [ipv6ToGroups_groupTexts h]
  rfl

/-! ## Textual forms -/

/-- What holds of the digits and the colon holds of the compressed form. -/
theorem compressed_chars (octets : Bytes) {P : Char → Prop} (hcolon : P ':')
    (hdigit : ∀ n < 16, P (Nat.digitChar n)) : ∀ c ∈ compressed octets, P c := by
  have htexts : ∀ p ∈ (groupTexts octets).map shorten, ∀ c ∈ p, P c := by
    intro p hp c hc
    obtain ⟨q, hq, rfl⟩ := List.mem_map.mp hp
    unfold shorten at hc
    split at hc
    · rw [List.mem_singleton.mp hc]
      exact hdigit 0 (by decide)
    · obtain ⟨n, hn, rfl⟩ := mem_groupTexts hq ((List.dropWhile_suffix _).subset hc)
      exact hdigit n hn
  have hjoined : ∀ ps ⊆ (groupTexts octets).map shorten, ∀ c ∈ [':'].intercalate ps, P c := by
    intro ps hps c hc
    rcases mem_intercalate hc with hc | ⟨p, hp, hc⟩
    · rwa [List.mem_singleton.mp hc]
    · exact htexts p (hps hp) c hc
  intro c hc
  unfold compressed at hc
  simp only at hc
  split at hc
  · exact hjoined _ (List.Subset.refl _) c hc
  · rcases List.mem_append.mp hc with hc | hc
    · rcases List.mem_append.mp hc with hc | hc
      · exact hjoined _ (List.take_subset _ _) c hc
      · have hcc : c = ':' := by simpa using hc
        rwa [hcc]
    · exact hjoined _ (List.drop_subset _ _) c hc

theorem isAscii_compressed (octets : Bytes) : IsAscii (compressed octets) :=
  compressed_chars octets (by decide) (by decide)

theorem isDigit_decimal (n : Nat) : ∀ c ∈ decimal n, Number.isDigit 16 c = true := by
  intro c hc
  have hd := Nat.isDigit_of_mem_toDigits (by decide) (by decide) hc
  simp only [Char.isDigit, Bool.and_eq_true, decide_eq_true_eq, UInt32.le_iff_toNat_le] at hd
  have hlow : 48 ≤ c.toNat := hd.1
  have hhigh : c.toNat ≤ 57 := hd.2
  have hv : Number.digitValue c = c.toNat - 48 := by
    simp [Number.digitValue, hlow, hhigh]
  rw [Number.isDigit, decide_eq_true_eq, hv]
  omega

section
variable {P : Char → Prop}

/-- What holds of hex digits and dots holds of the characters of all pieces. -/
theorem chars_spells (hdigit : ∀ c, Number.isDigit 16 c = true → P c) (hdot : P '.')
    {ns : List Nat} {ss : List Text} (h : Spells ns ss) : ∀ s ∈ ss, ∀ c ∈ s, P c := by
  induction h with
  | nil => simp
  | group hg _ ih =>
      intro s hs
      rcases List.mem_cons.mp hs with rfl | hs
      · exact fun c hc => hdigit c (List.all_eq_true.mp hg.2.2.1 c hc)
      · exact ih s hs
  | quad a b c d =>
      intro s hs c hc
      rw [List.mem_singleton.mp hs] at hc
      rcases mem_intercalate hc with hc | ⟨p, hp, hc⟩
      · rwa [List.mem_singleton.mp hc]
      · obtain ⟨b, _, rfl⟩ := List.mem_map.mp hp
        exact hdigit c (isDigit_decimal _ c hc)

theorem spells_of_groups {ns : List Nat} {ss : List Text} (h : List.Forall₂ SpellsGroup ns ss) :
    Spells ns ss := by
  induction h with
  | nil => exact .nil
  | cons hg _ ih => exact .group hg ih

/-- What holds of hex digits, dots and colons holds of the characters of a literal. -/
theorem chars_spellsAddress (hdigit : ∀ c, Number.isDigit 16 c = true → P c) (hdot : P '.')
    (hcolon : P ':') {ns : List Nat} {s : Text} (h : SpellsAddress ns s) : ∀ c ∈ s, P c := by
  have hside : ∀ {ns : List Nat} {ss : List Text}, Spells ns ss →
      ∀ c ∈ [':'].intercalate ss, P c := by
    intro ns ss hs c hc
    rcases mem_intercalate hc with hc | ⟨p, hp, hc⟩
    · rwa [List.mem_singleton.mp hc]
    · exact chars_spells hdigit hdot hs p hp c hc
  intro c hc
  cases h with
  | full hs => exact hside hs c hc
  | compressed k hk hl hr =>
      rcases List.mem_append.mp hc with hc | hc
      · rcases List.mem_append.mp hc with hc | hc
        · exact hside (spells_of_groups hl) c hc
        · have hcc : c = ':' := by simpa using hc
          rwa [hcc]
      · exact hside hr c hc

end

theorem isAscii_spellsAddress {ns : List Nat} {s : Text} (h : SpellsAddress ns s) :
    IsAscii s :=
  chars_spellsAddress (fun _ => Number.toNat_lt_of_isDigit) (by decide) (by decide) h

/-! ## The three forms -/

theorem viaSocks5_eq {t : Target} (a : Arrival t) :
    viaSocks5 cases tables engine a = some (engine.decide cases tables t.address.host) := by
  have hr := readSocks5Request_encode ⟨t.address, a.port, a.port_lt⟩ []
  rw [List.append_nil] at hr
  rw [viaSocks5, hr]
  rfl

/-- The host of an authority is the text in front of the port, whatever it contains. -/
theorem connectTarget_authority {host : Text} (hne : host ≠ []) (port : Nat) :
    connectTarget (host ++ ':' :: decimal port) = some (host, Number.ofText (decimal port)) := by
  have hcolon : ':' ∉ decimal port := by
    intro hm
    have := Nat.isDigit_of_mem_toDigits (by decide) (by decide) hm
    exact absurd this (by decide)
  have hl : host.length ≠ 0 := fun h => hne (List.eq_nil_of_length_eq_zero h)
  have hdrop : (host ++ ':' :: decimal port).drop (host.length + 1) = decimal port := by
    rw [← List.drop_drop, List.drop_left]
    rfl
  rw [connectTarget, lastIndexOf_append hcolon]
  simp only [Option.bind_some, if_neg hl, List.take_left, hdrop]

theorem names_ne_nil {t : Target} {host : Text} (h : t.Names host) : host ≠ [] := by
  cases t with
  | name d =>
      have hd : host = d.text := h
      rw [hd]
      exact d.ne_nil
  | ip4 octets hl =>
      have hd : host = dotted octets := h
      rw [hd, dotted]
      match octets, hl with
      | [a, b, c, d], _ =>
          intro he
          rw [List.map_cons, List.map_cons, List.intercalate_cons_cons] at he
          exact Nat.toDigits_ne_nil (List.append_eq_nil_iff.mp (List.append_eq_nil_iff.mp he).1).1
  | ip6 octets hl =>
      obtain ⟨form, _, rfl⟩ := h
      exact List.cons_ne_nil _ _

theorem viaConnect_eq {t : Target} (a : Arrival t) :
    viaConnect cases tables engine a = some (engine.decide cases tables a.host) := by
  rw [viaConnect, connectTarget_authority (names_ne_nil a.names)]
  rfl

/-! ## What follows from the rules -/

/-- No text in brackets ends with the domestic country code. -/
theorem inCnSuffixes_bracketed (s : Text) :
    inCnSuffixes tables (bracketed s) = true ↔ ListedSuffix tables (bracketed s) := by
  have hend : endsWith (bracketed s) ".cn".toList = false := by
    rw [endsWith, Bool.eq_false_iff, Ne, List.isSuffixOf_iff_suffix, bracketed]
    intro h
    have hlast := h.getLast (by decide)
    rw [List.getLast_append_of_ne_nil _ (by decide)] at hlast
    exact absurd hlast (by decide)
  rw [inCnSuffixes, hend, Bool.or_false, Bool.or_eq_true, List.any_eq_true, ListedSuffix]
  simp only [List.contains_iff_mem]

/-- An action and a fallback of direct or proxy. -/
theorem action_eq_fallback {action : Action} {covered : Prop} [Decidable covered] :
    action = (if covered then .direct else .proxy) ↔
      action ≠ .reject ∧ (action = .direct ↔ covered) := by
  by_cases h : covered
  · cases action <;> simp [h]
  · cases action <;> simp [h]

/-- The name route leads where the IPv6 route does exactly when names follow the address. -/
theorem decideName_eq_iff (s : Text) (octets : Bytes) :
    engine.decideName cases tables (bracketed s) = ip6Route tables engine octets ↔
      NamesFollow cases tables engine (bracketed s) octets := by
  have hnames : inCnSuffixes tables (bracketed s) = true ↔ ListedSuffix tables (bracketed s) :=
    inCnSuffixes_bracketed s
  generalize bracketed s = text at *
  have hroute : ip6Route tables engine octets =
      (engine.matchIp6 tables (numbers octets)).getD .proxy := rfl
  have hnone : ∀ {α : Type} {p : α → Bool} {l : List α},
      l.find? p = none ↔ ∀ x ∈ l, p x = false := by simp
  rw [hroute, RuleEngine.decideName, RuleEngine.matchHost, RuleEngine.matchIp6]
  cases hr : engine.hostRules.find? (HostRule.hits cases · text) with
  | none =>
      cases hq : engine.ip6Rules.find? (Ip6Rule.hits · (numbers octets)) with
      | none =>
          have hboth : ((if inCnSuffixes tables text = true then Action.direct else .proxy) =
              (if inCnCidr6 tables.cnCidrs6 (numbers octets) = true then some Action.direct
                else none).getD .proxy) ↔
              (ListedSuffix tables text ↔ inCnCidr6 tables.cnCidrs6 (numbers octets) = true) := by
            rw [← hnames]
            cases inCnSuffixes tables text <;>
              cases inCnCidr6 tables.cnCidrs6 (numbers octets) <;> simp
          refine hboth.trans ⟨fun h => ⟨?_, ?_, ?_, fun _ _ => h⟩,
            fun h => h.tables (hnone.mp hr) (hnone.mp hq)⟩
          · rw [hr]
            simp
          · rw [hr]
            simp
          · rw [hq]
            simp
      | some q =>
          have hq6 : q ∈ engine.ip6Rules.find? (Ip6Rule.hits · (numbers octets)) := hq
          have hone : ((if inCnSuffixes tables text = true then Action.direct else .proxy) =
              q.action) ↔ q.action ≠ .reject ∧ (q.action = .direct ↔ ListedSuffix tables text) := by
            rw [eq_comm, action_eq_fallback, hnames]
          refine hone.trans ⟨fun h => ⟨?_, ?_, fun _ q' hq' => ?_, fun _ hno => ?_⟩,
            fun h => h.ip6Rule (hnone.mp hr) q hq6⟩
          · rw [hr]
            simp
          · rw [hr]
            simp
          · rw [hq] at hq'
            exact Option.some.inj hq' ▸ h
          · rw [hnone.mpr hno] at hq
            cases hq
  | some r =>
      have hr6 : r ∈ engine.hostRules.find? (HostRule.hits cases · text) := hr
      cases hq : engine.ip6Rules.find? (Ip6Rule.hits · (numbers octets)) with
      | none =>
          have hone : (r.action =
              (if inCnCidr6 tables.cnCidrs6 (numbers octets) = true then some Action.direct
                else none).getD .proxy) ↔ r.action ≠ .reject ∧
              (r.action = .direct ↔ inCnCidr6 tables.cnCidrs6 (numbers octets) = true) := by
            rw [← action_eq_fallback]
            cases inCnCidr6 tables.cnCidrs6 (numbers octets) <;> simp
          refine hone.trans ⟨fun h => ⟨?_, fun _ r' hr' => ?_, ?_, fun hno => ?_⟩,
            fun h => h.hostRule (hnone.mp hq) r hr6⟩
          · rw [hq]
            simp
          · rw [hr] at hr'
            exact Option.some.inj hr' ▸ h
          · rw [hq]
            simp
          · rw [hnone.mpr hno] at hr
            cases hr
      | some q =>
          have hq6 : q ∈ engine.ip6Rules.find? (Ip6Rule.hits · (numbers octets)) := hq
          have hsame : r.action = (some q.action).getD .proxy ↔ r.action = q.action := Iff.rfl
          refine hsame.trans ⟨fun h => ⟨fun r' hr' q' hq' => ?_, fun hno => ?_, fun hno => ?_,
            fun hno => ?_⟩, fun h => h.rules r hr6 q hq6⟩
          · rw [hr] at hr'
            rw [hq] at hq'
            rw [← Option.some.inj hr', ← Option.some.inj hq', h]
          · rw [hnone.mpr hno] at hq
            cases hq
          · rw [hnone.mpr hno] at hr
            cases hr
          · rw [hnone.mpr hno] at hr
            cases hr

theorem lower_compressed (octets : Bytes) :
    (bracketed (compressed octets)).map Char.toLower = bracketed (compressed octets) := by
  rw [lower_bracketed]
  conv_rhs => rw [← List.map_id (compressed octets)]
  exact congrArg bracketed
    (List.map_congr_left (compressed_chars octets (by decide) (by decide)))

theorem sameRoute_ip6 {octets : Bytes} {h : octets.length = 16} (a : Arrival (.ip6 octets h)) :
    SameRoute cases tables engine a ↔ Follows cases tables engine a := by
  have hc : viaConnect cases tables engine a = some (engine.decide cases tables a.host) :=
    viaConnect_eq a
  have hs : viaSocks5 cases tables engine a = some (ip6Route tables engine octets) :=
    (viaSocks5_eq a).trans (congrArg some (decide_groupTexts h))
  have ha : viaAbsolute cases tables engine (.ip6 octets h) =
      engine.decideName cases tables (bracketed (compressed octets)) :=
    (decide_bracketed (isAscii_compressed octets)).trans (by rw [lower_compressed])
  obtain ⟨form, hform, hhost⟩ := a.names
  have hb : engine.decide cases tables a.host =
      engine.decideName cases tables (bracketed (form.map Char.toLower)) := by
    rw [hhost, decide_bracketed (isAscii_spellsAddress hform), lower_bracketed]
  have htext : a.host.map Char.toLower = bracketed (form.map Char.toLower) := by
    rw [hhost, lower_bracketed]
  have hfollows : Follows cases tables engine a ↔
      NamesFollow cases tables engine (a.host.map Char.toLower) octets ∧
        NamesFollow cases tables engine (bracketed (compressed octets)) octets := Iff.rfl
  rw [hfollows, htext, ← decideName_eq_iff, ← decideName_eq_iff]
  constructor
  · intro h
    obtain ⟨hconnect, habsolute, _⟩ := h
    rw [hc, hs, hb, Option.some.injEq] at hconnect
    rw [ha, hs, Option.some.injEq] at habsolute
    exact ⟨hconnect, habsolute⟩
  · intro h
    obtain ⟨hconnect, habsolute⟩ := h
    refine ⟨?_, ?_, fun _ _ heq => ?_⟩
    · rw [hc, hs, hb, hconnect]
    · rw [ha, hs, habsolute]
    · cases heq
      exact hs

/-- The inbound forms agree exactly when the target is a name or an IPv4 address, or the rules
and tables say of both texts in brackets what they say of the address. -/
theorem sameRoute_iff (cases : CaseMap) (tables : Tables) (engine : RuleEngine) {t : Target}
    (a : Arrival t) :
    SameRoute cases tables engine a ↔ Follows cases tables engine a := by
  have hc : viaConnect cases tables engine a = some (engine.decide cases tables a.host) :=
    viaConnect_eq a
  have hs : viaSocks5 cases tables engine a =
      some (engine.decide cases tables t.address.host) := viaSocks5_eq a
  cases t with
  | name d =>
      have hhost : a.host = d.text := a.names
      have haddress : (Target.name d).address.host = d.text :=
        Bytes.utf8Decode_ofAscii (isAscii_name d)
      refine iff_of_true ⟨?_, ?_, fun _ _ h => by cases h⟩ trivial
      · rw [hc, hs, hhost, haddress]
      · rw [hs, haddress]
        exact congrArg some (decide_toLower (isAscii_name d))
  | ip4 octets h =>
      have hhost : a.host = dotted octets := a.names
      refine iff_of_true ⟨?_, ?_, fun _ _ h => by cases h⟩ trivial
      · rw [hc, hs, hhost]
        rfl
      · rw [hs]
        rfl
  | ip6 octets h => exact sameRoute_ip6 a

/-- 2001:db8::1, which the engine below knows an IPv6 rule for. -/
def documentation : Target :=
  .ip6 [0x20, 0x01, 0x0d, 0xb8, 0, 0, 0, 0, 0, 0, 0, 0, 0, 0, 0, 1] rfl

def documentationArrival : Arrival documentation where
  host := "[2001:db8::1]".toList
  names := by
    refine ⟨"2001:db8::1".toList, ?_, rfl⟩
    exact @SpellsAddress.compressed [0x2001, 0xdb8] [1] ["2001".toList, "db8".toList]
      ["1".toList] 5 (by decide) (.cons (by decide) (.cons (by decide) .nil))
      (.group (by decide) .nil)
  port := 443
  port_lt := by decide

/-- A direct IPv6 rule is missed by the CONNECT form of its address. -/
theorem connect_skips_ip6_rule :
    ¬ ∀ (tables : Tables) (engine : RuleEngine) (t : Target) (a : Arrival t),
      SameRoute CaseMap.ascii tables engine a := by
  intro h
  have hconnect := (h {} (RuleEngine.new CaseMap.ascii
    ["IP-CIDR6,2001:db8::/32,DIRECT".toList] [] []) _ documentationArrival).connect
  revert hconnect
  decide +kernel

end DshClashProxy.Core.InboundHost
