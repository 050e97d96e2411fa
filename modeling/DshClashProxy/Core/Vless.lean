import DshClashProxy.Core.EncodeAddr

/-!
# The VLESS request of the two clients

`vlessConnect` and the Go connector put a request in front of the stream: version, uuid,
addons, command, port and address. They recognise addresses in their own ways, and agree on
every name and IPv4 literal. An IPv6 literal gets its own address only where its pieces
stand in their places and Go does not take it for an IPv4 address.
-/
namespace DshClashProxy.Core.Vless

open Js Js.Text InboundHost EncodeAddr

/-! ## The request of `vlessConnect` -/

/-- What is thrown: an `Error` with a message, or the range check of a buffer. -/
inductive Thrown where
  | error (message : Text)
  | range
  deriving DecidableEq

/-- `writeUInt16BE(value, offset)`. NaN passes the range check and is stored as zero. -/
def writeUInt16BE (addr : Bytes) (value : Number) (offset : Nat) : Except Thrown Bytes :=
  if value.lt 0 || Number.lt 65535 value || decide (addr.length < offset + 2) then .error .range
  else .ok (addr.take offset ++ twoBytes value ++ addr.drop (offset + 2))

/-- `groups.forEach((value, index) => addr.writeUInt16BE(value, index * 2))` -/
def writeGroups (addr : Bytes) (index : Nat) : List Number → Except Thrown Bytes
  | [] => .ok addr
  | value :: rest =>
      match writeUInt16BE addr value (index * 2) with
      | .ok addr => writeGroups addr (index + 1) rest
      | .error e => .error e

/-- Port, address type and address. -/
def vmessEncodeAddr (host : Text) (port : Number) : Except Thrown Bytes :=
  if isIp4 host then
    .ok (twoBytes port ++ 0x01 ::
      (host.splitOn '.').map fun part => byteOf (Number.ofText part))
  else if ':' ∈ host then
    (writeGroups (List.replicate 16 0) 0 ((host.splitOn ':').map Number.parseHex)).map fun addr =>
      twoBytes port ++ 0x03 :: addr
  else
    let hostBytes := Bytes.utf8Encode host
    .ok (twoBytes port ++ 0x02 :: UInt8.ofNat hostBytes.length :: hostBytes)

/-- `Buffer.from(text, "hex")` of hex digits. -/
def hexBytes : Text → Bytes
  | hi :: lo :: rest =>
      UInt8.ofNat (Number.digitValue hi * 16 + Number.digitValue lo) :: hexBytes rest
  | _ => []

def uuidBytes (uuid : Option Text) : Except Thrown Bytes :=
  let hex := (uuid.getD []).filter (· ≠ '-')
  if hex.length = 32 && hex.all (Number.isDigit 16) then .ok (hexBytes hex)
  else .error (.error "vless: invalid uuid".toList)

/-- The fields of a node that the request depends on. -/
structure Node where
  uuid : Option Text := none
  flow : Option Text := none
  /-- The node has `reality-opts`. -/
  realityOpts : Bool := false

/-- The request that `vlessConnect` writes first. -/
def vlessConnect (cases : CaseMap) (node : Node) (host : Text) (port : Number) :
    Except Thrown Bytes := do
  let flow := cases.toLower (node.flow.getD [])
  if flow = "xtls-rprx-vision".toList || node.realityOpts then
    throw (.error ("vless: reality (xtls-rprx-vision + reality-opts) needs uTLS fingerprinting " ++
      "that Node cannot provide").toList)
  let uuid ← uuidBytes node.uuid
  let address ← vmessEncodeAddr host port
  return 0x00 :: uuid ++ 0x00 :: 0x01 :: address

/-! ## The request of the Go connector -/

/-- `stringsReplace` with a separator that is not empty. `skip` counts the bytes of an
occurrence that are still to be passed. -/
def stringsReplace (old new : Bytes) : Bytes → Nat → Bytes
  | [], _ => []
  | _ :: rest, skip + 1 => stringsReplace old new rest skip
  | c :: rest, 0 =>
      if old.isPrefixOf (c :: rest) then new ++ stringsReplace old new rest (old.length - 1)
      else c :: stringsReplace old new rest 0

/-- The value of a byte that is a hex digit. -/
def fromHexChar (c : UInt8) : Option Nat :=
  let digit := Char.ofNat c.toNat
  if Number.isDigit 16 digit then some (Number.digitValue digit) else none

/-- `hex.DecodeString`; none is an error. -/
def decodeString : Bytes → Option Bytes
  | [] => some []
  | [_] => none
  | hi :: lo :: rest => do
      let hi ← fromHexChar hi
      let lo ← fromHexChar lo
      let decoded ← decodeString rest
      return UInt8.ofNat (hi * 16 + lo) :: decoded

def appendUvarint (b : Bytes) (v : Nat) : Bytes :=
  if v ≥ 0x80 then appendUvarint (b ++ [UInt8.ofNat v ||| 0x80]) (v / 128)
  else b ++ [UInt8.ofNat v]

/-- The first twelve bytes of the 16-byte form of an IPv4 address. -/
def v4InV6Prefix : Bytes := List.replicate 10 0 ++ [0xff, 0xff]

/-- `ip.To4()`; none is nil. -/
def to4 (ip : Bytes) : Option Bytes :=
  if ip.length = 4 then some ip
  else if ip.length = 16 && ip.take 12 = v4InV6Prefix then some (ip.drop 12)
  else none

/-- `ip.To16()`; nil appends nothing. -/
def to16 (ip : Bytes) : Bytes :=
  if ip.length = 4 then v4InV6Prefix ++ ip
  else if ip.length = 16 then ip
  else []

variable (parseIP : Bytes → Option Bytes)

def encodeVlessAddr (host : Bytes) : Bytes :=
  match parseIP host with
  | some ip =>
      match to4 ip with
      | some ip4 => [0x01] ++ ip4
      | none => [0x03] ++ to16 ip
  | none => [0x02, UInt8.ofNat host.length] ++ host

structure NodeConfig where
  uuid : Bytes
  flow : Bytes

/-- The addons: nothing, or the flow behind its tag and length. -/
def addonsOf (flow : Bytes) : Bytes :=
  let vision : Bytes := Bytes.ofAscii "xtls-rprx-vision".toList
  if flow = vision then appendUvarint [0x0a] vision.length ++ vision else []

/-- The request of the connector. None is the panic for a bad uuid. -/
def buildVlessRequest (node : NodeConfig) (host : Bytes) (port : UInt16) : Option Bytes := do
  let uuid ← decodeString (stringsReplace (Bytes.ofAscii "-".toList) [] node.uuid 0)
  let addons := addonsOf node.flow
  let command : Bytes := [0x01, (port >>> 8).toUInt8, (port &&& 0xff).toUInt8]
  return 0x00 :: uuid ++ UInt8.ofNat addons.length :: addons ++ command ++
    encodeVlessAddr parseIP host

/-! ## The same node and target -/

/-- The node as the connector gets it. -/
def Node.config (node : Node) : NodeConfig :=
  ⟨Bytes.utf8Encode (node.uuid.getD []), Bytes.utf8Encode (node.flow.getD [])⟩

/-- 32 hex digits, with dashes anywhere. -/
def SpellsUuid (uuid : Text) : Prop :=
  (uuid.filter (· ≠ '-')).length = 32 ∧
    (uuid.filter (· ≠ '-')).all (Number.isDigit 16) = true

/-- A node for a plain stream: its flow is empty and it has no reality options. -/
structure Node.Plain (node : Node) : Prop where
  uuid : SpellsUuid (node.uuid.getD [])
  flow : node.flow.getD [] = []
  realityOpts : node.realityOpts = false

/-- The texts that name a target, without leading zeros in an IPv4 literal. -/
def Named : Host → Text → Prop
  | .ip4 octets, host => octets.length = 4 ∧ host = dotted octets
  | .ip6 octets _, host => SpellsAddress (groups octets) host
  | .name text _ _ _, host => host = text

/-- What `net.ParseIP` makes of a text that names the target. -/
def parsedIP : Host → Option Bytes
  | .ip4 octets => some (v4InV6Prefix ++ octets)
  | .ip6 octets _ => some octets
  | .name _ _ _ _ => none

/-- Both clients send the same request. -/
def SameRequest (cases : CaseMap) (node : Node) (host : Text) (port : Nat) : Prop :=
  ∃ request, vlessConnect cases node host (.finite port) = .ok request ∧
    buildVlessRequest parseIP node.config (Bytes.utf8Encode host) (UInt16.ofNat port) =
      some request

/-- The groups the pieces of a literal account for. A dotted piece counts for two. -/
def slots (host : Text) : Nat := (host.splitOn ':').length + if '.' ∈ host then 1 else 0

/-- The pieces in front of a double colon, or all pieces. -/
def leading (host : Text) : Nat := ((host.splitOn ':').takeWhile (· ≠ [])).length

/-- Every group of the address stands at its place among the pieces: a dotted piece is all
zeros, and the pieces account for all eight groups or lead up to nothing but zeros. -/
structure InPlace (ns : List Nat) (host : Text) : Prop where
  fits : (host.splitOn ':').length ≤ 8
  tail : '.' ∈ host → ∀ n ∈ ns.drop 6, n = 0
  placed : slots host = 8 ∨ ∀ n ∈ ns.drop (leading host), n = 0

/-- An IPv6 literal is not IPv4-mapped and has its groups in place. -/
def Agrees (host : Text) : Host → Prop
  | .ip4 _ => True
  | .ip6 octets _ => octets.take 12 ≠ v4InV6Prefix ∧ InPlace (groups octets) host
  | .name _ _ _ _ => True

/-! ## The uuid -/

theorem isAscii_uuid {uuid : Text} (h : SpellsUuid uuid) : IsAscii uuid := by
  intro c hc
  by_cases hd : c = '-'
  · rw [hd]
    decide
  · exact Number.toNat_lt_of_isDigit
      (List.all_eq_true.mp h.2 c (List.mem_filter.mpr ⟨hc, by simpa using hd⟩))

theorem ofNat_eq_dash {c : Char} (h : c.toNat < 128) :
    UInt8.ofNat c.toNat = 0x2d ↔ c = '-' := by
  constructor
  · intro he
    have hn : (UInt8.ofNat c.toNat).toNat = 0x2d := congrArg UInt8.toNat he
    rw [Bytes.toNat_ofNat_of_lt (by omega)] at hn
    rw [← Char.ofNat_toNat c, hn]
  · rintro rfl
    rfl

/-- The connector takes the dashes out of a uuid as `replace` does. -/
theorem stringsReplace_dash {s : Text} (h : IsAscii s) :
    stringsReplace (Bytes.ofAscii "-".toList) [] (Bytes.ofAscii s) 0 =
      Bytes.ofAscii (s.filter (· ≠ '-')) := by
  induction s with
  | nil => rfl
  | cons c s ih =>
      have hs := ih fun d hd => h d (List.mem_cons_of_mem _ hd)
      have hc := ofNat_eq_dash (h c (by simp))
      have hp : (Bytes.ofAscii "-".toList).isPrefixOf (Bytes.ofAscii (c :: s)) =
          decide (c = '-') := by
        change (decide (0x2d = UInt8.ofNat c.toNat) && true) = _
        rw [Bool.and_true, decide_eq_decide, eq_comm, hc]
      by_cases hd : c = '-'
      · subst c
        exact hs
      · have hf : (c :: s).filter (· ≠ '-') = c :: s.filter (· ≠ '-') := by simp [hd]
        rw [hf]
        change (if (Bytes.ofAscii "-".toList).isPrefixOf (Bytes.ofAscii (c :: s)) then _
          else UInt8.ofNat c.toNat :: stringsReplace _ [] (Bytes.ofAscii s) 0) = _
        rw [hp, if_neg (by simpa using hd), hs]
        rfl

theorem fromHexChar_ofNat {c : Char} (h : Number.isDigit 16 c = true) :
    fromHexChar (UInt8.ofNat c.toNat) = some (Number.digitValue c) := by
  have hlt := Number.toNat_lt_of_isDigit h
  rw [fromHexChar, Bytes.toNat_ofNat_of_lt (by omega), Char.ofNat_toNat]
  exact if_pos h

/-- Both decoders read an even number of hex digits alike. -/
theorem decodeString_ofAscii : ∀ {s : Text}, (∀ c ∈ s, Number.isDigit 16 c = true) →
    s.length % 2 = 0 → decodeString (Bytes.ofAscii s) = some (hexBytes s)
  | [], _, _ => rfl
  | [_], _, h2 => by simp at h2
  | hi :: lo :: rest, h, h2 => by
      have hrest : decodeString (Bytes.ofAscii rest) = some (hexBytes rest) :=
        decodeString_ofAscii (fun c hc => h c (by simp [hc]))
          (by simp only [List.length_cons] at h2; omega)
      change (do
        let hi ← fromHexChar (UInt8.ofNat hi.toNat)
        let lo ← fromHexChar (UInt8.ofNat lo.toNat)
        let decoded ← decodeString (Bytes.ofAscii rest)
        return UInt8.ofNat (hi * 16 + lo) :: decoded) = _
      rw [fromHexChar_ofNat (h hi (by simp)), fromHexChar_ofNat (h lo (by simp)), hrest]
      rfl

theorem uuidBytes_eq {uuid : Option Text} (h : SpellsUuid (uuid.getD [])) :
    uuidBytes uuid = .ok (hexBytes ((uuid.getD []).filter (· ≠ '-'))) := by
  have hif : (decide (((uuid.getD []).filter (· ≠ '-')).length = 32) &&
      ((uuid.getD []).filter (· ≠ '-')).all (Number.isDigit 16)) = true := by
    rw [h.2, h.1]
    rfl
  exact if_pos hif

theorem decodeString_uuid {uuid : Text} (h : SpellsUuid uuid) :
    decodeString (stringsReplace (Bytes.ofAscii "-".toList) [] (Bytes.utf8Encode uuid) 0) =
      some (hexBytes (uuid.filter (· ≠ '-'))) := by
  have ha := isAscii_uuid h
  rw [Bytes.utf8Encode_eq_ofAscii ha, stringsReplace_dash ha]
  exact decodeString_ofAscii (List.all_eq_true.mp h.2) (by rw [h.1])

/-! ## Storing the pieces -/

/-- The piece is stored as this group. -/
def Stored (n : Nat) (s : Text) : Prop :=
  n < 65536 ∧ (Number.parseHex s = .finite n ∨ n = 0 ∧ Number.parseHex s = .nan)

theorem stored_of_piece {n : Nat} {s : Text} (h : Piece n s) : Stored n s := by
  refine ⟨h.lt, ?_⟩
  rcases h with ⟨hne, hl, hd, rfl⟩ | ⟨rfl, rfl⟩
  · have hlt := spellsGroup_lt ⟨hne, hl, hd, rfl⟩
    rw [Number.parseHex_of_digits hne (List.all_eq_true.mp hd),
      Number.round_natCast (hlt.trans (by decide))]
    exact Or.inl rfl
  · exact Or.inr ⟨rfl, rfl⟩

theorem writeUInt16BE_stored {n : Nat} {s : Text} (h : Stored n s) (addr : Bytes) (offset : Nat)
    (hl : offset + 2 ≤ addr.length) :
    writeUInt16BE addr (Number.parseHex s) offset =
      .ok (addr.take offset ++ Bytes.uint16BE n ++ addr.drop (offset + 2)) := by
  have hfit : decide (addr.length < offset + 2) = false := by simpa using hl
  obtain ⟨hn, h | ⟨rfl, h⟩⟩ := h
  · have hlow : Number.lt (.finite n) 0 = false := by
      change decide ((n : ℚ) < (0 : Nat)) = false
      simp
    have hhigh : Number.lt 65535 (.finite n) = false := by
      change decide (((65535 : Nat) : ℚ) < n) = false
      rw [decide_eq_false_iff_not, Nat.cast_lt]
      omega
    rw [h, writeUInt16BE, hlow, hhigh, hfit, twoBytes_natCast hn]
    rfl
  · rw [h, writeUInt16BE, hfit]
    rfl

theorem writeGroups_stored {ns : List Nat} {ss : List Text} (h : List.Forall₂ Stored ns ss)
    (front back : Bytes) (index : Nat) (hf : front.length = index * 2)
    (hb : 2 * ns.length ≤ back.length) :
    writeGroups (front ++ back) index (ss.map Number.parseHex) =
      .ok (front ++ ns.flatMap Bytes.uint16BE ++ back.drop (2 * ns.length)) := by
  induction h generalizing front back index with
  | nil => simp [writeGroups]
  | @cons n s ns ss hs _ ih =>
      rw [List.length_cons] at hb
      have hw := writeUInt16BE_stored hs (front ++ back) (index * 2)
        (by rw [List.length_append]; omega)
      rw [← hf, List.take_left, List.drop_length_add_append] at hw
      rw [List.map_cons, writeGroups, ← hf, hw]
      have h2 : (Bytes.uint16BE n).length = 2 := rfl
      have hrest := ih (front ++ Bytes.uint16BE n) (back.drop 2) (index + 1)
        (by rw [List.length_append]; omega) (by rw [List.length_drop]; omega)
      rw [List.drop_drop, List.append_assoc front] at hrest
      rw [List.append_assoc front]
      simp only [hrest, List.flatMap_cons, List.length_cons, List.append_assoc, Nat.mul_succ,
        Nat.add_comm 2]

/-- A ninth group lies outside the buffer. -/
theorem writeGroups_long {ns : List Nat} {ss : List Text} (h : List.Forall₂ Stored ns ss)
    {addr : Bytes} {index : Nat} (hl : addr.length < (index + ns.length) * 2)
    (ha : index * 2 ≤ addr.length) :
    writeGroups addr index (ss.map Number.parseHex) = .error .range := by
  induction h generalizing addr index with
  | nil =>
      simp only [List.length_nil] at hl
      omega
  | @cons n s ns ss hs _ ih =>
      rw [List.length_cons] at hl
      rw [List.map_cons, writeGroups]
      by_cases hfit : index * 2 + 2 ≤ addr.length
      · rw [writeUInt16BE_stored hs _ _ hfit]
        have h2 : (Bytes.uint16BE n).length = 2 := rfl
        have hlen : (addr.take (index * 2) ++ Bytes.uint16BE n ++
            addr.drop (index * 2 + 2)).length = addr.length := by
          rw [List.length_append, List.length_append, List.length_take, List.length_drop]
          omega
        exact ih (by rw [hlen]; omega) (by rw [hlen]; omega)
      · have hw : writeUInt16BE addr (Number.parseHex s) (index * 2) = .error .range := by
          rw [writeUInt16BE, if_pos]
          simp only [Bool.or_eq_true, decide_eq_true_eq]
          exact Or.inr (by omega)
        rw [hw]

/-- The stored groups, with zeros up to the eighth. -/
def padded (ns : List Nat) : List Nat := ns ++ List.replicate (8 - ns.length) 0

theorem flatMap_zeros (k : Nat) :
    (List.replicate k 0).flatMap Bytes.uint16BE = List.replicate (2 * k) 0 := by
  induction k with
  | zero => rfl
  | succ k ih =>
      rw [List.replicate_succ, List.flatMap_cons, ih]
      rfl

/-- The pieces are stored as the address exactly when they fit and give its groups. -/
theorem writeGroups_iff {ns : List Nat} {ss : List Text} (h : List.Forall₂ Stored ns ss)
    {octets : Bytes} (h16 : octets.length = 16) :
    writeGroups (List.replicate 16 0) 0 (ss.map Number.parseHex) = .ok octets ↔
      ns.length ≤ 8 ∧ padded ns = groups octets := by
  by_cases h8 : ns.length ≤ 8
  · have hw := writeGroups_stored h [] (List.replicate 16 0) 0 rfl
      (by rw [List.length_replicate]; omega)
    have hz : (List.replicate 16 (0 : UInt8)).drop (2 * ns.length) =
        (List.replicate (8 - ns.length) 0).flatMap Bytes.uint16BE := by
      rw [List.drop_replicate, flatMap_zeros]
      congr 1
      omega
    rw [List.nil_append, List.nil_append, hz, ← List.flatMap_append] at hw
    change writeGroups _ 0 _ = .ok ((padded ns).flatMap Bytes.uint16BE) at hw
    have hlt : ∀ n ∈ padded ns, n < 65536 := by
      intro n hn
      rcases List.mem_append.mp hn with hn | hn
      · exact forall_right h.flip (fun _ _ hs => hs.1) n hn
      · rw [List.eq_of_mem_replicate hn]
        decide
    rw [hw, Except.ok.injEq]
    constructor
    · exact fun he => ⟨h8, groups_eq h16 hlt he⟩
    · intro h
      obtain ⟨-, he⟩ := h
      rw [he, flatMap_groups h16]
  · rw [writeGroups_long h (by rw [List.length_replicate]; omega) (by omega)]
    exact iff_of_false (by simp) (fun hn => h8 hn.1)

/-! ## Groups that are out of place -/

/-- Zeros commute with a list only if it consists of zeros. -/
theorem shift_eq_iff (ns : List Nat) (k : Nat) :
    ns ++ List.replicate k 0 = List.replicate k 0 ++ ns ↔ k = 0 ∨ ∀ n ∈ ns, n = 0 := by
  cases k with
  | zero => simp
  | succ k =>
      induction ns with
      | nil => simp
      | cons n ns ih =>
          have hr : List.replicate (k + 1) 0 ++ n :: ns =
              0 :: (List.replicate k 0 ++ n :: ns) := rfl
          rw [List.cons_append, hr, List.cons.injEq, List.forall_mem_cons]
          constructor
          · intro h
            obtain ⟨rfl, he⟩ := h
            have hs : List.replicate k 0 ++ 0 :: ns = List.replicate (k + 1) 0 ++ ns := by
              rw [List.replicate_succ', List.append_assoc]
              rfl
            exact Or.inr ⟨rfl, (ih.mp (he.trans hs)).resolve_left (Nat.succ_ne_zero k)⟩
          · rintro (h | ⟨rfl, h⟩)
            · cases h
            · refine ⟨rfl, (ih.mpr (Or.inr h)).trans ?_⟩
              rw [List.replicate_succ', List.append_assoc]
              rfl

/-- A list that reads the same after a zero in front as before some group consists of
zeros. -/
theorem zeros_of_rotate {ns : List Nat} {q : Nat} (h : 0 :: ns = ns ++ [q]) :
    q = 0 ∧ ∀ n ∈ ns, n = 0 := by
  induction ns with
  | nil => simpa using h.symm
  | cons n ns ih =>
      rw [List.cons_append, List.cons.injEq] at h
      obtain ⟨rfl, h⟩ := h
      obtain ⟨hq, hns⟩ := ih h
      exact ⟨hq, List.forall_mem_cons.mpr ⟨rfl, hns⟩⟩

/-- The zeros that a double colon is read as, the one in front of it included. -/
def gap (left : List Nat) : Nat := if left = [] then 2 else 1

theorem sideGroups_gap (left : List Nat) :
    sideGroups left ++ [0] = left ++ List.replicate (gap left) 0 := by
  unfold sideGroups gap
  split
  · next h => rw [h]; rfl
  · rfl

theorem length_gap (left : List Nat) : (sideGroups left).length + 1 = left.length + gap left := by
  have := congrArg List.length (sideGroups_gap left)
  rwa [List.length_append, List.length_append, List.length_replicate] at this

/-- Groups behind a double colon that stands for too few zeros are in their places only if
they are zeros. -/
theorem gap_eq_iff (left right : List Nat) {e k : Nat} (h : e ≤ k) :
    left ++ List.replicate e 0 ++ (right ++ List.replicate (k - e) 0) =
        left ++ List.replicate k 0 ++ right ↔ k = e ∨ ∀ n ∈ right, n = 0 := by
  have hk : List.replicate k 0 = List.replicate e 0 ++ List.replicate (k - e) 0 := by
    rw [← List.replicate_add, Nat.add_sub_cancel' h]
  rw [hk]
  simp only [List.append_assoc, List.append_cancel_left_eq]
  rw [shift_eq_iff, Nat.sub_eq_zero_iff_le]
  exact or_congr_left ⟨fun hle => Nat.le_antisymm hle h, fun he => he.le⟩

theorem padded_compressed {left right : List Nat} {k : Nat}
    (hl : (left ++ List.replicate k 0 ++ right).length = 8)
    (h8 : (sideGroups left ++ 0 :: sideGroups right).length ≤ 8) :
    padded (sideGroups left ++ 0 :: sideGroups right) = left ++ List.replicate k 0 ++ right ↔
      (sideGroups left ++ 0 :: sideGroups right).length = 8 ∨ ∀ n ∈ right, n = 0 := by
  obtain ⟨f, hf, hf0⟩ : ∃ f, sideGroups right = right ++ List.replicate f 0 ∧
      (f = 0 ∨ right = []) := by
    unfold sideGroups
    split
    · next h => exact ⟨1, by rw [h]; rfl, Or.inr h⟩
    · exact ⟨0, by simp, Or.inl rfl⟩
  have hvs : sideGroups left ++ 0 :: sideGroups right =
      left ++ List.replicate (gap left) 0 ++ (right ++ List.replicate f 0) := by
    rw [← sideGroups_gap, ← hf, List.append_assoc]
    rfl
  rw [hvs] at h8 ⊢
  simp only [List.length_append, List.length_replicate] at hl h8 ⊢
  have hpad : padded (left ++ List.replicate (gap left) 0 ++ (right ++ List.replicate f 0)) =
      left ++ List.replicate (gap left) 0 ++ (right ++ List.replicate (k - gap left) 0) := by
    have hz : List.replicate (k - gap left) 0 = List.replicate f 0 ++
        List.replicate (8 - (left.length + gap left + (right.length + f))) 0 := by
      rw [← List.replicate_add]
      congr 1
      omega
    rw [padded, hz]
    simp only [List.length_append, List.length_replicate]
    simp only [List.append_assoc]
  rw [hpad, gap_eq_iff _ _ (by omega)]
  rcases hf0 with rfl | rfl
  · exact or_congr_left (by omega)
  · exact iff_of_true (Or.inr (by simp)) (Or.inr (by simp))

theorem snoc_inj {as bs : List Nat} {a b : Nat} (h : as ++ [a] = bs ++ [b]) : as = bs ∧ a = b := by
  obtain ⟨h1, h2⟩ := List.append_inj' h rfl
  exact ⟨h1, (List.cons.inj h2).1⟩

section
variable {left ms : List Nat} {k q r x : Nat}

/-- The piece leaves at least the last group to the padding. -/
theorem padded_dotted_wide (hx : x = q ↔ q = 0)
    (hl : left.length + k + ms.length = 6) (hg : gap left ≤ k) :
    padded (left ++ List.replicate (gap left) 0 ++ (ms ++ [x])) =
        left ++ List.replicate k 0 ++ (ms ++ [q, r]) ↔
      (q = 0 ∧ r = 0) ∧ (k = gap left ∨ ∀ n ∈ ms, n = 0) := by
  have hpad : padded (left ++ List.replicate (gap left) 0 ++ (ms ++ [x])) =
      left ++ List.replicate (gap left) 0 ++ (ms ++ [x]) ++
        List.replicate (k - gap left) 0 ++ [0] := by
    have hn : 8 - (left ++ List.replicate (gap left) 0 ++ (ms ++ [x])).length =
        k - gap left + 1 := by
      simp only [List.length_append, List.length_replicate, List.length_cons, List.length_nil]
      omega
    rw [padded, hn, List.replicate_succ', ← List.append_assoc]
  have hsnoc : left ++ List.replicate k 0 ++ (ms ++ [q, r]) =
      left ++ List.replicate k 0 ++ (ms ++ [q]) ++ [r] := by simp
  have hzero : padded (left ++ List.replicate (gap left) 0 ++ (ms ++ [x])) =
      left ++ List.replicate k 0 ++ (ms ++ [q, r]) → q = 0 ∧ r = 0 := by
    intro h
    rw [hpad, hsnoc] at h
    obtain ⟨h, hr⟩ := snoc_inj h
    refine ⟨?_, hr.symm⟩
    rcases Nat.eq_or_lt_of_le hg with he | hlt
    · rw [he, Nat.sub_self, List.replicate_zero, List.append_nil, ← List.append_assoc,
        ← List.append_assoc] at h
      exact hx.mp (snoc_inj h).2
    · obtain ⟨j, hj⟩ : ∃ j, k - gap left = j + 1 := ⟨k - gap left - 1, by omega⟩
      rw [hj, List.replicate_succ', ← List.append_assoc,
        ← List.append_assoc (left ++ List.replicate k 0) ms] at h
      exact (snoc_inj h).2.symm
  by_cases hq : q = 0 ∧ r = 0
  · obtain ⟨rfl, rfl⟩ := hq
    obtain rfl : x = 0 := hx.mpr rfl
    have hmid : padded (left ++ List.replicate (gap left) 0 ++ (ms ++ [0])) =
        left ++ List.replicate (gap left) 0 ++
          (ms ++ [0, 0] ++ List.replicate (k - gap left) 0) := by
      have hswap : List.replicate (k - gap left) 0 ++ [0] =
          0 :: List.replicate (k - gap left) 0 := by
        rw [← List.replicate_succ', List.replicate_succ]
      rw [hpad, List.append_assoc, hswap]
      simp
    rw [hmid, gap_eq_iff _ _ hg, and_iff_right ⟨rfl, rfl⟩, List.forall_mem_append]
    exact or_congr_right ⟨fun h => h.1, fun h => ⟨h, by simp⟩⟩
  · exact iff_of_false (fun h => hq (hzero h)) (fun h => hq h.1)

/-- A double colon in front that stands for one group is read as two. -/
theorem padded_dotted_narrow (hx : x = q ↔ q = 0) (hl : ms.length = 5) :
    padded (List.replicate 2 0 ++ (ms ++ [x])) = List.replicate 1 0 ++ (ms ++ [q, r]) ↔
      (q = 0 ∧ r = 0) ∧ ∀ n ∈ ms, n = 0 := by
  have hpad : padded (List.replicate 2 0 ++ (ms ++ [x])) = 0 :: (0 :: ms ++ [x]) := by
    have hn : 8 - (List.replicate 2 0 ++ (ms ++ [x])).length = 0 := by
      simp only [List.length_append, List.length_replicate, List.length_cons, List.length_nil]
      omega
    rw [padded, hn]
    simp [List.replicate_succ]
  have hsnoc : List.replicate 1 0 ++ (ms ++ [q, r]) = 0 :: (ms ++ [q] ++ [r]) := by simp
  rw [hpad, hsnoc, List.cons.injEq, and_iff_right rfl]
  constructor
  · intro h
    obtain ⟨hm, rfl⟩ := snoc_inj h
    obtain ⟨rfl, hms⟩ := zeros_of_rotate hm
    exact ⟨⟨rfl, hx.mpr rfl⟩, hms⟩
  · intro h
    obtain ⟨⟨rfl, rfl⟩, hms⟩ := h
    rw [hx.mpr rfl, List.eq_replicate_iff.mpr ⟨rfl, hms⟩, ← List.replicate_succ,
      List.replicate_succ']

/-- A dotted last piece is read as a single group `x`, which is the first of its two groups
only if that is zero. -/
theorem padded_dotted (hk : 0 < k) (hx : x = q ↔ q = 0)
    (hl : (left ++ List.replicate k 0 ++ (ms ++ [q, r])).length = 8) :
    padded (sideGroups left ++ 0 :: (ms ++ [x])) = left ++ List.replicate k 0 ++ (ms ++ [q, r]) ↔
      (q = 0 ∧ r = 0) ∧ ((sideGroups left ++ 0 :: (ms ++ [x])).length = 7 ∨
        ∀ n ∈ ms, n = 0) := by
  have hvs : sideGroups left ++ 0 :: (ms ++ [x]) =
      left ++ List.replicate (gap left) 0 ++ (ms ++ [x]) := by
    rw [← sideGroups_gap, List.append_assoc]
    rfl
  rw [hvs]
  simp only [List.length_append, List.length_replicate, List.length_cons, List.length_nil] at hl ⊢
  by_cases hg : gap left ≤ k
  · rw [padded_dotted_wide hx (by omega) hg]
    exact and_congr_right fun _ => or_congr_left (by omega)
  · have hnil : left = [] := by
      by_contra hne
      rw [gap, if_neg hne] at hg
      omega
    subst hnil
    obtain rfl : k = 1 := by
      rw [gap, if_pos rfl] at hg
      omega
    simp only [List.length_nil, gap, if_true] at hl ⊢
    rw [List.nil_append, List.nil_append, padded_dotted_narrow hx (by omega)]
    exact and_congr_right fun _ => (or_iff_right (by omega)).symm

end

/-! ## Literals -/

/-- A dotted piece is read as far as its first octet, in hex. -/
theorem parseHex_dotted (a b c d : UInt8) :
    ∃ x : Nat, x < 65536 ∧ Number.parseHex (dotted [a, b, c, d]) = .finite x ∧
      (x = a.toNat * 256 + b.toNat ↔ a.toNat * 256 + b.toNat = 0) := by
  have hall : ∀ n, n < 256 → Number.ofDigits 16 (ProxyServer.decimal n) ≤ 597 ∧
      (n = 0 → Number.ofDigits 16 (ProxyServer.decimal n) = 0) ∧
      (0 < n → Number.ofDigits 16 (ProxyServer.decimal n) < n * 256) ∧
      ProxyServer.decimal n ≠ [] ∧ (ProxyServer.decimal n).all (Number.isDigit 16) = true := by
    decide +kernel
  obtain ⟨hle, hzero, hlt, hne, hd⟩ := hall a.toNat a.toNat_lt
  have htext : dotted [a, b, c, d] = ProxyServer.decimal a.toNat ++
      '.' :: ['.'].intercalate ([b, c, d].map fun b => ProxyServer.decimal b.toNat) := by
    rw [dotted, List.map_cons, List.map_cons, List.intercalate_cons_cons, List.append_assoc]
    rfl
  refine ⟨Number.ofDigits 16 (ProxyServer.decimal a.toNat), by omega, ?_, ?_⟩
  · rw [htext, Number.parseHex_append hne (List.all_eq_true.mp hd) (by simp; decide),
      Number.round_natCast (by omega)]
  · have hb := b.toNat_lt
    constructor
    · intro he
      by_contra hn
      have ha : a.toNat ≠ 0 := fun ha => hn (by rw [← he, hzero ha])
      have := hlt (by omega)
      omega
    · intro he
      rw [hzero (by omega), he]

theorem stored_dotted (a b c d : UInt8) : ∃ x, Stored x (dotted [a, b, c, d]) ∧
    (x = a.toNat * 256 + b.toNat ↔ a.toNat * 256 + b.toNat = 0) := by
  obtain ⟨x, hlt, hx, h0⟩ := parseHex_dotted a b c d
  exact ⟨x, ⟨hlt, Or.inl hx⟩, h0⟩

theorem leading_compressed {left : List Nat} {ls pieces : List Text}
    (h : List.Forall₂ SpellsGroup left ls) {text : Text}
    (ht : text.splitOn ':' = side ls ++ [] :: pieces) : leading text = left.length := by
  have hne : ∀ s ∈ ls, decide (s ≠ []) = true := fun s hs =>
    decide_eq_true (forall_right h (fun _ _ hg => hg.1) s hs)
  rw [leading, ht]
  unfold side
  split
  · next hnil =>
      rw [hnil] at h
      cases h
      rfl
  · rw [List.takeWhile_append_of_pos hne, List.takeWhile_cons_of_neg (by simp), List.append_nil,
      h.length_eq]

theorem dot_mem_of_dotted {text : Text} {octets : Bytes} {pieces : List Text}
    (hl : 2 ≤ octets.length) (h : text.splitOn ':' = pieces ++ [dotted octets]) : '.' ∈ text := by
  have hd : '.' ∈ dotted octets := by
    match octets, hl with
    | a :: b :: rest, _ =>
        rw [dotted, List.map_cons, List.map_cons, List.intercalate_cons_cons]
        simp
  have htext : [':'].intercalate (text.splitOn ':') = text := List.intercalate_splitOn ':'
  rw [← htext, h]
  exact mem_intercalate_of_mem [':'] (List.mem_append_right _ (List.mem_singleton_self _)) hd

theorem stored_pieces {ns : List Nat} {ss : List Text} (h : List.Forall₂ Piece ns ss) :
    List.Forall₂ Stored ns ss := h.imp fun _ _ hp => stored_of_piece hp

/-- The pieces of a literal are stored as its address exactly when its groups are in place. -/
def StoredInPlace (ns : List Nat) (text : Text) : Prop :=
  ∃ vs, List.Forall₂ Stored vs (text.splitOn ':') ∧
    (vs.length ≤ 8 ∧ padded vs = ns ↔ InPlace ns text)

theorem drop_six {front : List Nat} {q r : Nat} (h : (front ++ [q, r]).length = 8) :
    (front ++ [q, r]).drop 6 = [q, r] := by
  rw [List.length_append, List.length_cons, List.length_singleton] at h
  exact List.drop_left' (by omega)

/-- The zeros of a double colon do not count behind the leading groups. -/
theorem zeros_behind (left right : List Nat) (k : Nat) :
    (∀ n ∈ (left ++ List.replicate k 0 ++ right).drop left.length, n = 0) ↔
      ∀ n ∈ right, n = 0 := by
  rw [List.append_assoc, List.drop_left, List.forall_mem_append]
  exact and_iff_right fun n hn => List.eq_of_mem_replicate hn

theorem stored_full {ns : List Nat} {ss : List Text} {text : Text}
    (hf : List.Forall₂ SpellsGroup ns ss) (hl : ns.length = 8) (hsplit : text.splitOn ':' = ss) :
    StoredInPlace ns text := by
  have hp := pieces_of_groups hf
  have hdot : '.' ∉ text := dotless_of_groups (hsplit ▸ hp)
  have hlen := hf.length_eq
  refine ⟨ns, hsplit ▸ stored_pieces hp, iff_of_true ⟨by omega, by simp [padded, hl]⟩ ?_⟩
  refine ⟨by rw [hsplit]; omega, fun hd => absurd hd hdot, Or.inl ?_⟩
  rw [slots, hsplit, if_neg hdot]
  omega

theorem stored_fullDotted {ms : List Nat} {ts : List Text} {a b c d : UInt8} {text : Text}
    (hf : List.Forall₂ SpellsGroup ms ts)
    (hl : (ms ++ [a.toNat * 256 + b.toNat, c.toNat * 256 + d.toNat]).length = 8)
    (hsplit : text.splitOn ':' = ts ++ [dotted [a, b, c, d]]) :
    StoredInPlace (ms ++ [a.toNat * 256 + b.toNat, c.toNat * 256 + d.toNat]) text := by
  obtain ⟨x, hx, hx0⟩ := stored_dotted a b c d
  have hdot := dot_mem_of_dotted (by simp) hsplit
  have hlen := hf.length_eq
  have h6 := drop_six hl
  simp only [List.length_append, List.length_cons, List.length_nil] at hl
  have hp : List.Forall₂ Stored (ms ++ [x]) (text.splitOn ':') :=
    hsplit ▸ List.rel_append (stored_pieces (pieces_of_groups hf)) (.cons hx .nil)
  refine ⟨ms ++ [x], hp, ?_⟩
  -- the padding stands where the second group of the tail should
  have hpad : padded (ms ++ [x]) = ms ++ [x, 0] := by
    have hn : 8 - (ms ++ [x]).length = 1 := by
      rw [List.length_append, List.length_singleton]
      omega
    rw [padded, hn, List.append_assoc]
    rfl
  rw [hpad, List.append_cancel_left_eq, List.cons.injEq, List.cons.injEq, hx0]
  constructor
  · intro h
    obtain ⟨-, hq, hr, -⟩ := h
    refine ⟨?_, fun _ => ?_, Or.inl ?_⟩
    · rw [hsplit, List.length_append, List.length_singleton]
      omega
    · rw [h6, ← hr, hq]
      simp
    · rw [slots, hsplit, if_pos hdot, List.length_append, List.length_singleton]
      omega
  · intro h
    have htail := h.tail hdot
    rw [h6] at htail
    refine ⟨?_, htail _ (by simp), (htail _ (by simp)).symm, rfl⟩
    rw [List.length_append, List.length_singleton]
    omega

section
variable {left : List Nat} {ls : List Text} {k : Nat} {text : Text}

theorem stored_compressed {right : List Nat} {rs : List Text}
    (hleft : List.Forall₂ SpellsGroup left ls) (hright : List.Forall₂ SpellsGroup right rs)
    (hl : (left ++ List.replicate k 0 ++ right).length = 8)
    (hsplit : text.splitOn ':' = side ls ++ [] :: side rs) :
    StoredInPlace (left ++ List.replicate k 0 ++ right) text := by
  have hp : List.Forall₂ Piece (sideGroups left ++ 0 :: sideGroups right) (text.splitOn ':') :=
    hsplit ▸ List.rel_append (pieces_of_side hleft)
      (.cons (Or.inr ⟨rfl, rfl⟩) (pieces_of_side hright))
  have hlead := leading_compressed hleft hsplit
  have hdot := dotless_of_groups hp
  have hlen := hp.length_eq
  refine ⟨_, stored_pieces hp, ?_⟩
  constructor
  · intro h
    obtain ⟨h8, he⟩ := h
    refine ⟨by omega, fun hd => absurd hd hdot, ?_⟩
    rw [slots, if_neg hdot, hlead, zeros_behind, ← hlen]
    exact (padded_compressed hl h8).mp he
  · intro h
    have hplaced := h.placed
    rw [slots, if_neg hdot, hlead, zeros_behind, ← hlen] at hplaced
    have h8 := hlen.trans_le h.fits
    exact ⟨h8, (padded_compressed hl h8).mpr hplaced⟩

theorem stored_compressedDotted {ms : List Nat} {ts : List Text} {a b c d : UInt8} (hk : 0 < k)
    (hleft : List.Forall₂ SpellsGroup left ls) (hf : List.Forall₂ SpellsGroup ms ts)
    (hl : (left ++ List.replicate k 0 ++
      (ms ++ [a.toNat * 256 + b.toNat, c.toNat * 256 + d.toNat])).length = 8)
    (hsplit : text.splitOn ':' = side ls ++ [] :: (ts ++ [dotted [a, b, c, d]])) :
    StoredInPlace (left ++ List.replicate k 0 ++
      (ms ++ [a.toNat * 256 + b.toNat, c.toNat * 256 + d.toNat])) text := by
  obtain ⟨x, hx, hx0⟩ := stored_dotted a b c d
  have hp : List.Forall₂ Stored (sideGroups left ++ 0 :: (ms ++ [x])) (text.splitOn ':') :=
    hsplit ▸ List.rel_append (stored_pieces (pieces_of_side hleft))
      (.cons (stored_of_piece (Or.inr ⟨rfl, rfl⟩))
        (List.rel_append (stored_pieces (pieces_of_groups hf)) (.cons hx .nil)))
  have hlead := leading_compressed hleft hsplit
  have hdot := @dot_mem_of_dotted _ [a, b, c, d] (side ls ++ [] :: ts) (by simp)
    (hsplit.trans (by simp))
  have hlen := hp.length_eq
  have h6 := @drop_six (left ++ List.replicate k 0 ++ ms) (a.toNat * 256 + b.toNat)
    (c.toNat * 256 + d.toNat) (by rw [List.append_assoc]; exact hl)
  rw [List.append_assoc] at h6
  have h8 : (sideGroups left ++ 0 :: (ms ++ [x])).length ≤ 8 := by
    have hgap := length_gap left
    have hg2 : gap left ≤ 2 ∧ (left.length = 0 ∨ gap left = 1) := by
      unfold gap
      split
      · next h => rw [h]; simp
      · exact ⟨by omega, Or.inr rfl⟩
    simp only [List.length_append, List.length_replicate, List.length_cons,
      List.length_nil] at hl ⊢
    omega
  refine ⟨_, hp, ?_⟩
  rw [padded_dotted hk hx0 hl]
  constructor
  · intro h
    obtain ⟨-, ⟨hq, hr⟩, hplaced⟩ := h
    refine ⟨by omega, fun _ => by rw [h6, hq, hr]; simp, ?_⟩
    rw [slots, if_pos hdot, hlead, zeros_behind, ← hlen, List.forall_mem_append]
    exact hplaced.imp (by omega) fun hms => ⟨hms, by rw [hq, hr]; simp⟩
  · intro h
    have htail := h.tail hdot
    have hplaced := h.placed
    rw [h6] at htail
    rw [slots, if_pos hdot, hlead, zeros_behind, ← hlen, List.forall_mem_append] at hplaced
    exact ⟨h8, ⟨htail _ (by simp), htail _ (by simp)⟩, hplaced.imp (by omega) fun h => h.1⟩

end

theorem stored_inPlace {ns : List Nat} {text : Text} (h : SpellsAddress ns text)
    (hl : ns.length = 8) : StoredInPlace ns text := by
  cases h with
  | @full _ ss hs =>
      have hne : ss ≠ [] := by
        rintro rfl
        cases hs
        cases hl
      have hsplit := List.splitOn_intercalate ':' (colonless_spells hs) hne
      rcases spells_cases hs with hf | ⟨ms, ts, a, b, c, d, hf, rfl, rfl⟩
      · exact stored_full hf hl hsplit
      · exact stored_fullDotted hf hl hsplit
  | @compressed left right ls rs k hk hleft hright =>
      have hsplit := splitOn_compressed (colonless_groups hleft) (colonless_spells hright)
      rcases spells_cases hright with hf | ⟨ms, ts, a, b, c, d, hf, rfl, rfl⟩
      · exact stored_compressed hleft hf hl hsplit
      · have hside : side (ts ++ [dotted [a, b, c, d]]) = ts ++ [dotted [a, b, c, d]] :=
          if_neg (by simp)
        rw [hside] at hsplit
        exact stored_compressedDotted hk hleft hf hl hsplit

/-! ## The two requests -/

theorem portBytes {port : Nat} (hp : port < 65536) :
    ([(UInt16.ofNat port >>> 8).toUInt8, (UInt16.ofNat port &&& 0xff).toUInt8] : Bytes) =
      Bytes.uint16BE port := by
  have hn : (UInt16.ofNat port).toNat = port := by
    rw [UInt16.toNat_ofNat']
    exact Nat.mod_eq_of_lt hp
  have hhi : (UInt16.ofNat port >>> 8).toUInt8 = UInt8.ofNat (port / 256) := by
    apply UInt8.toNat_inj.mp
    simp [UInt16.toNat_shiftRight, hn, Nat.shiftRight_eq_div_pow]
  have hlo : (UInt16.ofNat port &&& 0xff).toUInt8 = UInt8.ofNat port := by
    apply UInt8.toNat_inj.mp
    have h255 : (255 : Nat) = 2 ^ 8 - 1 := rfl
    simp only [UInt16.toNat_toUInt8, UInt16.toNat_and, hn, UInt8.toNat_ofNat']
    change (port &&& 255) % 256 = port % 256
    rw [h255, Nat.and_two_pow_sub_one_eq_mod, Nat.mod_mod]
  rw [hhi, hlo]
  rfl

/-- The requests agree when the encoded addresses do. -/
theorem sameRequest_iff_address (cases : CaseMap) (parseIP : Bytes → Option Bytes) {node : Node}
    (h : node.Plain) (host : Text) {port : Nat} (hp : port < 65536) :
    SameRequest parseIP cases node host port ↔
      vmessEncodeAddr host (.finite port) =
        .ok (Bytes.uint16BE port ++ encodeVlessAddr parseIP (Bytes.utf8Encode host)) := by
  have hflow : cases.toLower (node.flow.getD []) = [] := by
    rw [h.flow]
    exact cases.toLower_ascii [] (by decide)
  have hjs : vlessConnect cases node host (.finite port) =
      (vmessEncodeAddr host (.finite port)).map fun address =>
        0x00 :: hexBytes ((node.uuid.getD []).filter (· ≠ '-')) ++ 0x00 :: 0x01 :: address := by
    simp only [vlessConnect, hflow, h.realityOpts, uuidBytes_eq h.uuid]
    cases vmessEncodeAddr host (.finite port) <;> rfl
  have hgo : buildVlessRequest parseIP node.config (Bytes.utf8Encode host) (UInt16.ofNat port) =
      some (0x00 :: hexBytes ((node.uuid.getD []).filter (· ≠ '-')) ++ 0x00 :: 0x01 ::
        (Bytes.uint16BE port ++ encodeVlessAddr parseIP (Bytes.utf8Encode host))) := by
    have haddons : addonsOf node.config.flow = [] := by
      rw [Node.config, h.flow]
      rfl
    simp only [buildVlessRequest, haddons]
    rw [Node.config, decodeString_uuid h.uuid, ← portBytes hp]
    simp
  rw [SameRequest, hjs, hgo]
  cases vmessEncodeAddr host (.finite port) with
  | error e => exact iff_of_false (fun ⟨_, he, _⟩ => by cases he) (fun he => by cases he)
  | ok address =>
      constructor
      · intro h
        obtain ⟨request, hr, he⟩ := h
        rw [← Option.some.inj he] at hr
        have := List.append_cancel_left (Except.ok.inj hr)
        rw [(List.cons.inj (List.cons.inj this).2).2]
      · intro he
        rw [Except.ok.inj he]
        exact ⟨_, rfl, rfl⟩

theorem spellsOctet_decimal (b : UInt8) : SpellsOctet b (ProxyServer.decimal b.toNat) := by
  have hall : ∀ n, n < 256 → ProxyServer.decimal n ≠ [] ∧ (ProxyServer.decimal n).length ≤ 3 ∧
      (ProxyServer.decimal n).all (Number.isDigit 10) = true ∧
      Number.ofDigits 10 (ProxyServer.decimal n) = n := by decide +kernel
  exact hall b.toNat b.toNat_lt

theorem spellsIp4_dotted {octets : Bytes} (h : octets.length = 4) :
    SpellsIp4 octets (dotted octets) := by
  refine ⟨h, octets.map fun b => ProxyServer.decimal b.toNat, ?_, rfl⟩
  rw [List.forall₂_map_right_iff, List.forall₂_same]
  exact fun b _ => spellsOctet_decimal b

theorem encodeVlessAddr_ip6 {octets : Bytes} (h16 : octets.length = 16)
    {parseIP : Bytes → Option Bytes} {host : Bytes} (h : parseIP host = some octets) :
    encodeVlessAddr parseIP host =
      if octets.take 12 = v4InV6Prefix then 0x01 :: octets.drop 12 else 0x03 :: octets := by
  simp only [encodeVlessAddr, h, to4, to16, h16]
  by_cases hm : octets.take 12 = v4InV6Prefix <;> simp [hm]

theorem vmessEncodeAddr_colon {host : Text} (h : ':' ∈ host) {port : Nat} (hp : port < 65536) :
    vmessEncodeAddr host (.finite port) =
      (writeGroups (List.replicate 16 0) 0 ((host.splitOn ':').map Number.parseHex)).map
        fun addr => Bytes.uint16BE port ++ 0x03 :: addr := by
  have h4 : isIp4 host ≠ true := fun hi => by
    obtain ⟨_, hs⟩ := spells_of_isIp4 hi
    exact colonless_ip4 hs h
  rw [vmessEncodeAddr, if_neg h4, if_pos h, twoBytes_natCast hp]

theorem vmessEncodeAddr_ip6 {octets : Bytes} (h16 : octets.length = 16) {host : Text}
    (h : SpellsAddress (groups octets) host) {port : Nat} (hp : port < 65536) :
    vmessEncodeAddr host (.finite port) = .ok (Bytes.uint16BE port ++ 0x03 :: octets) ↔
      InPlace (groups octets) host := by
  obtain ⟨vs, hvs, hin⟩ := stored_inPlace h (by simp [groups])
  rw [← hin, ← writeGroups_iff hvs h16,
    vmessEncodeAddr_colon (colon_mem_of_address h (by simp [groups])) hp]
  cases writeGroups (List.replicate 16 0) 0 ((host.splitOn ':').map Number.parseHex) with
  | error e => exact iff_of_false (fun he => by cases he) (fun he => by cases he)
  | ok addr =>
      change Except.ok _ = _ ↔ _
      rw [Except.ok.injEq, Except.ok.injEq, List.append_cancel_left_eq, List.cons.injEq]
      exact and_iff_right rfl

/-- The script never writes an IPv6 literal as an IPv4 address. -/
theorem vmessEncodeAddr_ne_ip4 {host : Text} (h : ':' ∈ host) {port : Nat} (hp : port < 65536)
    (octets : Bytes) :
    vmessEncodeAddr host (.finite port) ≠ .ok (Bytes.uint16BE port ++ 0x01 :: octets) := by
  rw [vmessEncodeAddr_colon h hp]
  cases writeGroups (List.replicate 16 0) 0 ((host.splitOn ':').map Number.parseHex) with
  | error e => exact fun he => by cases he
  | ok addr =>
      intro he
      have := List.append_cancel_left (Except.ok.inj he)
      exact absurd (List.cons.inj this).1 (by decide)

/-- The two clients send the same request exactly when an IPv6 literal is not IPv4-mapped and
has its groups in place. -/
theorem sameRequest_iff (cases : CaseMap) (parseIP : Bytes → Option Bytes) {node : Node}
    (hn : node.Plain) (target : Host) (host : Text) (h : Named target host)
    (hparse : parseIP (Bytes.utf8Encode host) = parsedIP target) (port : Nat)
    (hp : port < 65536) : SameRequest parseIP cases node host port ↔ Agrees host target := by
  rw [sameRequest_iff_address cases parseIP hn host hp]
  cases target with
  | ip4 octets =>
      obtain ⟨h4, rfl⟩ := h
      have hs := spellsIp4_dotted h4
      refine iff_of_true ?_ trivial
      have hto4 : to4 (v4InV6Prefix ++ octets) = some octets := by
        simp [to4, v4InV6Prefix, h4]
      rw [vmessEncodeAddr, if_pos (isIp4_of_spells hs), map_ofText_octets (splitOn_ip4 hs),
        twoBytes_natCast hp, encodeVlessAddr, hparse]
      simp only [parsedIP, hto4]
      rfl
  | ip6 octets h16 =>
      have hcolon : ':' ∈ host := colon_mem_of_address h (by simp [groups])
      rw [encodeVlessAddr_ip6 h16 hparse, Agrees, ← vmessEncodeAddr_ip6 h16 h hp]
      by_cases hm : octets.take 12 = v4InV6Prefix
      · rw [if_pos hm]
        exact iff_of_false (vmessEncodeAddr_ne_ip4 hcolon hp _) fun ha => ha.1 hm
      · rw [if_neg hm]
        exact (and_iff_right hm).symm
  | name text ne_nil colonless named =>
      have h : host = text := h
      subst host
      refine iff_of_true ?_ trivial
      have h4 : isIp4 text ≠ true := fun hi => by
        obtain ⟨_, hs⟩ := spells_of_isIp4 hi
        exact named _ hs
      rw [vmessEncodeAddr, if_neg h4, if_neg colonless, twoBytes_natCast hp, encodeVlessAddr,
        hparse]
      rfl

def loopbackNode : Node := { uuid := some "b831381d-6324-4d53-ad4f-8cda48b30811".toList }

theorem loopbackNode_plain : loopbackNode.Plain := by
  refine ⟨⟨?_, ?_⟩, rfl, rfl⟩ <;> decide

/-- `net.ParseIP` as far as the loopback address goes. -/
def parseLoopback : Bytes → Option Bytes := fun _ => parsedIP loopback

theorem loopback_same_request :
    SameRequest parseLoopback CaseMap.ascii loopbackNode "0:0:0:0:0:0:0:1".toList 443 :=
  (sameRequest_iff CaseMap.ascii parseLoopback loopbackNode_plain loopback _ loopback_spelled rfl
    443 (by decide)).mpr ⟨by decide, by decide, by decide, Or.inl (by decide)⟩

/-- For `::1` the script writes `0:0:1::` and the connector `::1`. -/
theorem double_colon_other_request :
    ¬ ∀ (cases : CaseMap) (parseIP : Bytes → Option Bytes) (node : Node) (target : Host)
      (host : Text) (port : Nat), node.Plain → Named target host →
      parseIP (Bytes.utf8Encode host) = parsedIP target → port < 65536 →
      SameRequest parseIP cases node host port := by
  intro h
  have hnamed : Named loopback "::1".toList :=
    @SpellsAddress.compressed [] [1] [] ["1".toList] 7 (by decide) .nil
      (.group (by decide) .nil)
  have hsame := h CaseMap.ascii parseLoopback loopbackNode loopback "::1".toList 443
    loopbackNode_plain hnamed rfl (by decide)
  have ha := (sameRequest_iff_address CaseMap.ascii parseLoopback loopbackNode_plain _
    (by decide)).mp hsame
  exact absurd ha (by decide +kernel)

end DshClashProxy.Core.Vless
