import DshClashProxy.Core.ProxyServer

/-!
# What a client sends

The well-formed messages of the two inbound protocols, and what the parsers of the server
make of each when it arrives whole.
-/
namespace DshClashProxy.Core.Client

open Js Js.Text ProxyServer

/-- A SOCKS5 greeting that offers the method without authentication. -/
structure Greeting where
  methods : Bytes
  length_le : methods.length ≤ 255
  offers : 0x00 ∈ methods

def Greeting.encode (g : Greeting) : Bytes :=
  0x05 :: UInt8.ofNat g.methods.length :: g.methods

inductive Address where
  | ip4 (octets : Bytes) (h : octets.length = 4)
  | name (text : Bytes) (h : text.length ≤ 255)
  | ip6 (octets : Bytes) (h : octets.length = 16)

/-- Address type and address. -/
def Address.encode : Address → Bytes
  | ip4 octets _ => 0x01 :: octets
  | name text _ => 0x03 :: UInt8.ofNat text.length :: text
  | ip6 octets _ => 0x04 :: octets

/-- The eight groups of an IPv6 address, in hex. -/
def groupTexts (octets : Bytes) : List Text :=
  (List.range 8).map fun i => Bytes.hex (octets.subarray (i * 2) (i * 2 + 2))

/-- The text under which the server knows the address. -/
def Address.host : Address → Text
  | ip4 octets _ => ['.'].intercalate (octets.map fun b => decimal b.toNat)
  | name text _ => Bytes.utf8Decode text
  | ip6 octets _ => [':'].intercalate (groupTexts octets)

/-- A SOCKS5 CONNECT request. -/
structure Request where
  address : Address
  port : Nat
  port_lt : port < 65536

def Request.encode (r : Request) : Bytes :=
  [0x05, 0x01, 0x00] ++ r.address.encode ++ Bytes.uint16BE r.port

/-- The bytes of an HTTP head up to the blank line, which is the first one. -/
structure HttpHead where
  bytes : Bytes
  head?_ne : bytes.head? ≠ some 0x05
  unended : ¬ headEnd <:+: (bytes ++ headEnd).dropLast

def HttpHead.encode (h : HttpHead) : Bytes := h.bytes ++ headEnd

def HttpHead.text (h : HttpHead) : Text := Bytes.latin1 h.bytes

/-! ## The zero compression never applies -/

theorem zeroRepeats_cons_ne {s : Text} (h : s.head? ≠ some ':') : zeroRepeats s = none := by
  unfold zeroRepeats
  split
  · simp at h
  · rfl

theorem zeroRun_append {g : Text} (hl : 2 ≤ g.length) (hg : ':' ∉ g) (s : Text) :
    zeroRun (g ++ s) = none := by
  match g, hl with
  | a :: b :: t, _ =>
      have hb : b ≠ ':' := fun h => hg (by simp [h])
      unfold zeroRun
      split
      · next rest heq =>
          rw [List.cons_append, List.cons.injEq] at heq
          rw [← heq.2]
          exact zeroRepeats_cons_ne (by simpa using hb)
      · rfl

theorem compressFrom_append {g : Text} (hg : ':' ∉ g) (s : Text) :
    compressFrom (g ++ s) = g ++ compressFrom s := by
  induction g with
  | nil => rfl
  | cons c g ih =>
      rw [List.mem_cons, not_or] at hg
      rw [List.cons_append, compressFrom, if_neg (fun h => hg.1 h.symm), ih hg.2]
      rfl

theorem compressFrom_colon {s : Text} (h : zeroRun s = none) :
    compressFrom (':' :: s) = ':' :: compressFrom s := by
  simp [compressFrom, h]

/-- Groups of at least two digits are never compressed. -/
theorem compressZeros_intercalate {groups : List Text}
    (h : ∀ g ∈ groups, 2 ≤ g.length ∧ ':' ∉ g) :
    compressZeros ([':'].intercalate groups) = [':'].intercalate groups := by
  have hrun : ∀ gs : List Text, (∀ g ∈ gs, 2 ≤ g.length ∧ ':' ∉ g) →
      zeroRun ([':'].intercalate gs) = none := by
    intro gs hgs
    match gs with
    | [] => rfl
    | [g] => simpa using zeroRun_append (hgs g (by simp)).1 (hgs g (by simp)).2 []
    | g :: g' :: rest =>
        rw [List.intercalate_cons_cons, List.append_assoc]
        exact zeroRun_append (hgs g (by simp)).1 (hgs g (by simp)).2 _
  rw [compressZeros, hrun groups h]
  induction groups with
  | nil => rfl
  | cons g rest ih =>
      have hg := (h g (by simp)).2
      have hr : ∀ g ∈ rest, 2 ≤ g.length ∧ ':' ∉ g := fun g hm => h g (List.mem_cons_of_mem _ hm)
      match rest with
      | [] =>
          have hc := compressFrom_append hg []
          rw [compressFrom, List.append_nil] at hc
          rw [List.intercalate_singleton]
          exact hc
      | g' :: rest =>
          rw [List.intercalate_cons_cons, List.append_assoc, compressFrom_append hg,
            List.singleton_append, compressFrom_colon (hrun _ hr)]
          exact congrArg (fun t => g ++ ':' :: t) (ih hr)

theorem hex_pair (a b : UInt8) : (Bytes.hex [a, b]).length = 4 ∧ ':' ∉ Bytes.hex [a, b] := by
  have hd : ∀ n, n < 16 → ':' ≠ Nat.digitChar n := by decide
  refine ⟨rfl, ?_⟩
  have ha := a.toNat_lt
  have hb := b.toNat_lt
  simp only [Bytes.hex, List.flatMap_cons, List.flatMap_nil, List.append_nil, List.cons_append,
    List.nil_append, List.mem_cons, List.not_mem_nil, or_false, not_or]
  exact ⟨hd _ (by omega), hd _ (by omega), hd _ (by omega), hd _ (by omega)⟩

theorem groupTexts_sized {octets : Bytes} (h : octets.length = 16) :
    ∀ g ∈ groupTexts octets, 2 ≤ g.length ∧ ':' ∉ g := by
  intro g hg
  obtain ⟨i, hi, rfl⟩ := List.mem_map.mp hg
  rw [List.mem_range] at hi
  have hl : (octets.subarray (i * 2) (i * 2 + 2)).length = 2 := by
    rw [Bytes.subarray, List.length_drop, List.length_take]
    omega
  obtain ⟨a, b, hab⟩ := List.length_eq_two.mp hl
  rw [hab]
  have := hex_pair a b
  exact ⟨by omega, this.2⟩

/-! ## SOCKS5 messages -/

/-- A length of at most 255 fits its byte. -/
theorem toNat_lengthByte {n : Nat} (h : n ≤ 255) : (UInt8.ofNat n).toNat = n := by
  rw [UInt8.toNat_ofNat']
  exact Nat.mod_eq_of_lt (by omega)

theorem greetingMethods_encode (g : Greeting) : greetingMethods g.encode = g.methods := by
  have hl := toNat_lengthByte g.length_le
  change Bytes.subarray (0x05 :: UInt8.ofNat g.methods.length :: g.methods)
    2 (2 + (UInt8.ofNat g.methods.length).toNat) = g.methods
  rw [hl, Bytes.subarray, Nat.add_comm, List.take_succ_cons, List.take_succ_cons,
    List.drop_succ_cons, List.drop_succ_cons, List.drop_zero, List.take_length]

section
variable {ver cmd rsv : UInt8}

theorem read_ip4 {octets : Bytes} (h : octets.length = 4) {port : Nat} (hp : port < 65536)
    (rest : Bytes) :
    readSocks5Request ([ver, cmd, rsv, 0x01] ++ octets ++ Bytes.uint16BE port ++ rest) =
      some (['.'].intercalate (octets.map fun b => decimal b.toNat), port, rest) := by
  have hport : Bytes.readUInt16BE
      ([ver, cmd, rsv, 0x01] ++ octets ++ Bytes.uint16BE port ++ rest) 8 = some port := by
    have := Bytes.readUInt16BE_append ([ver, cmd, rsv, 0x01] ++ octets) rest hp
    rwa [List.length_append, h] at this
  have hsub : Bytes.subarray
      ([ver, cmd, rsv, 0x01] ++ octets ++ Bytes.uint16BE port ++ rest) 4 8 = octets := by
    have := Bytes.subarray_append [ver, cmd, rsv, 0x01] octets
      (Bytes.uint16BE port ++ rest) 0 h.ge
    rw [← List.append_assoc] at this
    refine this.trans ?_
    rw [Bytes.subarray, ← h, List.take_length, List.drop_zero]
  have hdrop : ([ver, cmd, rsv, 0x01] ++ octets ++ Bytes.uint16BE port ++ rest).drop 10 =
      rest := List.drop_left' (by simp [h, Bytes.uint16BE])
  change (Bytes.readUInt16BE _ 8 >>= fun port => some (['.'].intercalate
    ((Bytes.subarray _ 4 8).map fun b => decimal b.toNat), port, List.drop 10 _)) = _
  rw [hport, hsub, hdrop]
  rfl

theorem read_ip6 {octets : Bytes} (h : octets.length = 16) {port : Nat} (hp : port < 65536)
    (rest : Bytes) :
    readSocks5Request ([ver, cmd, rsv, 0x04] ++ octets ++ Bytes.uint16BE port ++ rest) =
      some ([':'].intercalate (groupTexts octets), port, rest) := by
  have hport : Bytes.readUInt16BE
      ([ver, cmd, rsv, 0x04] ++ octets ++ Bytes.uint16BE port ++ rest) 20 = some port := by
    have := Bytes.readUInt16BE_append ([ver, cmd, rsv, 0x04] ++ octets) rest hp
    rwa [List.length_append, h] at this
  have hgroups : socks5Groups
      ([ver, cmd, rsv, 0x04] ++ octets ++ Bytes.uint16BE port ++ rest) = groupTexts octets := by
    apply List.map_congr_left
    intro i hi
    rw [List.mem_range] at hi
    have := Bytes.subarray_append [ver, cmd, rsv, 0x04] octets
      (Bytes.uint16BE port ++ rest) (i * 2) (show i * 2 + 2 ≤ octets.length by omega)
    rw [← List.append_assoc] at this
    have h6 : 6 + i * 2 = 4 + (i * 2 + 2) := by omega
    rw [h6]
    exact congrArg Bytes.hex this
  have hdrop : ([ver, cmd, rsv, 0x04] ++ octets ++ Bytes.uint16BE port ++ rest).drop 22 =
      rest := List.drop_left' (by simp [h, Bytes.uint16BE])
  change (Bytes.readUInt16BE _ 20 >>= fun port => some (compressZeros ([':'].intercalate
    (socks5Groups _)), port, List.drop 22 _)) = _
  rw [hport, hgroups, hdrop, compressZeros_intercalate (groupTexts_sized h)]
  rfl

theorem read_name {text : Bytes} (h : text.length ≤ 255) {port : Nat} (hp : port < 65536)
    (rest : Bytes) :
    readSocks5Request ([ver, cmd, rsv, 0x03, UInt8.ofNat text.length] ++ text ++
      Bytes.uint16BE port ++ rest) = some (Bytes.utf8Decode text, port, rest) := by
  have hl := toNat_lengthByte h
  have hport : Bytes.readUInt16BE ([ver, cmd, rsv, 0x03, UInt8.ofNat text.length] ++ text ++
      Bytes.uint16BE port ++ rest) (5 + text.length) = some port := by
    have := Bytes.readUInt16BE_append
      ([ver, cmd, rsv, 0x03, UInt8.ofNat text.length] ++ text) rest hp
    rwa [List.length_append] at this
  have hsub : Bytes.subarray ([ver, cmd, rsv, 0x03, UInt8.ofNat text.length] ++ text ++
      Bytes.uint16BE port ++ rest) 5 (5 + text.length) = text := by
    have := Bytes.subarray_append [ver, cmd, rsv, 0x03, UInt8.ofNat text.length] text
      (Bytes.uint16BE port ++ rest) 0 le_rfl
    rw [← List.append_assoc] at this
    refine this.trans ?_
    rw [Bytes.subarray, List.take_length, List.drop_zero]
  have hdrop : ([ver, cmd, rsv, 0x03, UInt8.ofNat text.length] ++ text ++
      Bytes.uint16BE port ++ rest).drop (7 + text.length) = rest :=
    List.drop_left' (by simp [Bytes.uint16BE]; omega)
  change (Bytes.readUInt16BE _ (5 + (UInt8.ofNat text.length).toNat) >>= fun port =>
    some (Bytes.utf8Decode (Bytes.subarray _ 5 (5 + (UInt8.ofNat text.length).toNat)), port,
      List.drop (7 + (UInt8.ofNat text.length).toNat) _)) = _
  rw [hl, hport, hsub, hdrop]
  rfl

end

/-- A whole request is read as its address and port, and leaves what follows it. -/
theorem readSocks5Request_encode (r : Request) (rest : Bytes) :
    readSocks5Request (r.encode ++ rest) = some (r.address.host, r.port, rest) := by
  obtain ⟨address, port, hp⟩ := r
  cases address with
  | ip4 octets h => exact read_ip4 h hp rest
  | name text h => exact read_name h hp rest
  | ip6 octets h => exact read_ip6 h hp rest

/-! ### Requests cut short -/

/-- The byte is missing or the one given. -/
def AtMost (p : Bytes) (i : Nat) (b : UInt8) : Prop := p[i]? = none ∨ p[i]? = some b

theorem atMost_mono {p q : Bytes} {i : Nat} {b : UInt8} (hp : p <+: q)
    (hb : q[i]? = some b) : AtMost p i b := by
  rcases lt_or_ge i p.length with h | h
  · obtain ⟨t, rfl⟩ := hp
    rw [List.getElem?_append_left h] at hb
    exact Or.inr hb
  · exact Or.inl (List.getElem?_eq_none h)

theorem short_ip4 {p : Bytes} (h3 : AtMost p 3 0x01) (hl : p.length < 10) :
    readSocks5Request p = none := by
  unfold readSocks5Request
  rcases h3 with h3 | h3 <;> rw [h3]
  change (Bytes.readUInt16BE p 8 >>= fun port => _) = none
  rw [Bytes.readUInt16BE_of_length hl]
  rfl

theorem short_ip6 {p : Bytes} (h3 : AtMost p 3 0x04) (hl : p.length < 22) :
    readSocks5Request p = none := by
  unfold readSocks5Request
  rcases h3 with h3 | h3 <;> rw [h3]
  change (Bytes.readUInt16BE p 20 >>= fun port => _) = none
  rw [Bytes.readUInt16BE_of_length hl]
  rfl

theorem short_name {p : Bytes} {length : UInt8} (h3 : AtMost p 3 0x03) (h4 : AtMost p 4 length)
    (hl : p.length < 5 + length.toNat + 2) : readSocks5Request p = none := by
  unfold readSocks5Request
  rcases h3 with h3 | h3 <;> rw [h3]
  change ((p[4]? : Option UInt8) >>= fun length => _) = none
  rcases h4 with h4 | h4 <;> rw [h4]
  · rfl
  · change (Bytes.readUInt16BE p (5 + length.toNat) >>= fun port => _) = none
    rw [Bytes.readUInt16BE_of_length hl]
    rfl

/-- A request that is cut short is not read. -/
theorem readSocks5Request_truncated {r : Request} {p : Bytes} (hp : p <+: r.encode)
    (hne : p ≠ r.encode) : readSocks5Request p = none := by
  have hlt : p.length < r.encode.length := by
    rcases hp.length_le.lt_or_eq with h | h
    · exact h
    · exact absurd (hp.eq_of_length h) hne
  obtain ⟨address, port, hport⟩ := r
  simp only [Request.encode, List.length_append, Bytes.uint16BE, List.length_cons,
    List.length_nil] at hlt
  cases address with
  | ip4 octets h =>
      simp only [Address.encode, List.length_cons, h] at hlt
      exact short_ip4 (atMost_mono hp rfl) (by omega)
  | ip6 octets h =>
      simp only [Address.encode, List.length_cons, h] at hlt
      exact short_ip6 (atMost_mono hp rfl) (by omega)
  | name text h =>
      simp only [Address.encode, List.length_cons] at hlt
      refine short_name (atMost_mono hp rfl) (atMost_mono hp rfl) ?_
      rw [toNat_lengthByte h]
      omega

end DshClashProxy.Core.Client
