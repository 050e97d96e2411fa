import DshClashProxy.Core.Shadowsocks
import DshClashProxy.Core.Vless
import DshClashProxy.Core.VmessKdf
import DshClashProxy.Lib.ByteSource

/-!
# The VMess request header

The client seals a command and its length under keys that depend on the authID and a nonce,
which it sends along. The receiver below follows the documented layout, and recovers from
every header what the client put in: the keys of the body stream, the options, the target
and the padding.
-/
namespace DshClashProxy.Core.VmessHeader

open Js Js.Text Lib.ByteSource Transports InboundHost EncodeAddr Vless VmessKdf Sip004

def KDF_SALT_AUTH_ID : Text := "AES Auth ID Encryption".toList

def KDF_SALT_HEADER_LEN_KEY : Text := "VMess Header AEAD Key_Length".toList

def KDF_SALT_HEADER_LEN_IV : Text := "VMess Header AEAD Nonce_Length".toList

def KDF_SALT_HEADER_KEY : Text := "VMess Header AEAD Key".toList

def KDF_SALT_HEADER_IV : Text := "VMess Header AEAD Nonce".toList

/-- What the client calls: SHA-256, AES-128 on one block, and AES-128-GCM. -/
structure Crypto where
  sha256 : Bytes → Sized 32
  aes : Sized 16 → Sized 16 → Sized 16
  gcm : Aead 16

/-! ## The client -/

def fnv1a32 (buffer : Bytes) : UInt32 :=
  buffer.foldl (fun hash byte => (hash ^^^ byte.toUInt32) * 0x01000193) 0x811c9dc5

/-- One bit of the loop of `crc32`. -/
def crcBit (crc : UInt32) : UInt32 :=
  (crc >>> 1) ^^^ (if crc &&& 1 ≠ 0 then 0xedb88320 else 0)

def crc32 (buffer : Bytes) : UInt32 :=
  buffer.foldl (fun crc byte => crcBit^[8] (crc ^^^ byte.toUInt32)) 0xffffffff ^^^ 0xffffffff

example : crc32 (Bytes.ofAscii "123456789".toList) = 0xcbf43926 := by decide +kernel

variable (crypto : Crypto)

theorem length_vmessKdf {sha256 : Bytes → Sized 32} (key : Bytes) (paths : List Path) :
    (vmessKdf (fun m => (sha256 m).val) key paths).length = 32 := by
  have hsum : ∀ (pads : List (Lib.Hmac.Pads UInt8)) (level : Nat) (inner : Bytes),
      ((sumLevel (fun m => (sha256 m).val) pads level).run inner).1.length = 32 := by
    intro pads level
    induction level with
    | zero => exact fun inner => (sha256 _).property
    | succ level ih => exact fun inner => ih _
  exact hsum _ _ _

/-- KDF16: the first 16 bytes of the output. -/
def kdf16 (key : Sized 16) (paths : List Path) : Sized 16 :=
  ⟨(vmessKdf (fun m => (crypto.sha256 m).val) key.val paths).subarray 0 16, by
    rw [Bytes.subarray, List.drop_zero, List.length_take, length_vmessKdf]
    rfl⟩

/-- A nonce: the first 12 bytes of the output. -/
def kdf12 (key : Sized 16) (paths : List Path) : Sized 12 :=
  ⟨(vmessKdf (fun m => (crypto.sha256 m).val) key.val paths).subarray 0 12, by
    rw [Bytes.subarray, List.drop_zero, List.length_take, length_vmessKdf]
    rfl⟩

def gcmSeal (key : Sized 16) (nonce : Sized 12) (plaintext aad : Bytes) : Bytes :=
  (crypto.gcm.encrypt key nonce aad plaintext).1 ++ (crypto.gcm.encrypt key nonce aad plaintext).2

def gcmOpen (key : Sized 16) (nonce : Sized 12) (sealed aad : Bytes) : Option Bytes :=
  let cut := sealed.place (sealed.length - 16)
  crypto.gcm.decrypt key nonce aad (sealed.take cut) (sealed.drop cut)

/-- The clock and the random bytes of one header. -/
structure Draw where
  now : UInt64
  rand : Sized 4
  connectionNonce : Sized 8

/-- Time, random bytes and their checksum, in one block of AES. -/
def createAuthId (cmdKey : Sized 16) (draw : Draw) : Sized 16 :=
  let head := Bytes.uintBE 8 draw.now.toNat ++ draw.rand.val
  let checksum := Bytes.uintBE 4 (crc32 head).toNat
  crypto.aes (kdf16 crypto cmdKey [.text KDF_SALT_AUTH_ID]) ⟨head ++ checksum, by
    simp [head, checksum, Bytes.length_uintBE, draw.rand.property]⟩

/-- The paths of a key or nonce: its salt, then authID and nonce as binary strings. -/
def pathsOf (salt : Text) (authId : Sized 16) (connectionNonce : Sized 8) : List Path :=
  [.text salt, .text (Bytes.latin1 authId.val), .text (Bytes.latin1 connectionNonce.val)]

/-- AuthID, sealed length, nonce and sealed command. The length is stored in two bytes, and a
longer command makes that throw. -/
def sealVmessAeadHeader (cmdKey : Sized 16) (draw : Draw) (command : Bytes) :
    Except Thrown Bytes :=
  let authId := createAuthId crypto cmdKey draw
  let paths salt := pathsOf salt authId draw.connectionNonce
  if 65535 < command.length then .error .range
  else
    let lengthSealed := gcmSeal crypto (kdf16 crypto cmdKey (paths KDF_SALT_HEADER_LEN_KEY))
      (kdf12 crypto cmdKey (paths KDF_SALT_HEADER_LEN_IV)) (Bytes.uint16BE command.length) authId
    let payloadSealed := gcmSeal crypto (kdf16 crypto cmdKey (paths KDF_SALT_HEADER_KEY))
      (kdf12 crypto cmdKey (paths KDF_SALT_HEADER_IV)) command authId
    .ok (authId.val ++ lengthSealed ++ draw.connectionNonce.val ++ payloadSealed)

/-- What a command is built from. -/
structure CommandArgs where
  reqKey : Sized 16
  reqIV : Sized 16
  responseHeader : UInt8
  host : Text
  port : Number

/-- The random padding of a command. -/
structure Padding where
  paddingLength : Fin 16
  bytes : Sized paddingLength

def buildVmessCommand (args : CommandArgs) (padding : Padding) : Except Thrown Bytes :=
  let security := UInt8.ofNat ((padding.paddingLength.val <<< 4) ||| 0x03)
  (vmessEncodeAddr args.host args.port).map fun address =>
    let body := [0x01] ++ args.reqIV.val ++ args.reqKey.val ++ [args.responseHeader] ++ [0x01] ++
      [security, 0x00, 0x01] ++ address ++ padding.bytes.val
    body ++ Bytes.uintBE 4 (fnv1a32 body).toNat

/-! ## A receiver -/

inductive Address where
  | ip4 (octets : Bytes)
  | name (text : Text)
  | ip6 (octets : Bytes)
  deriving DecidableEq

/-- What a receiver makes of a command. -/
structure Command where
  version : UInt8
  iv : Bytes
  key : Bytes
  response : UInt8
  option : UInt8
  padding : Nat
  security : UInt8
  command : UInt8
  port : Nat
  address : Address
  deriving DecidableEq

inductive Rejected where
  | tag
  | checksum
  | address
  | layout

section
variable {source : Source UInt8}

def readAddress : source.Reads Rejected Address := do
  let atyp ← readByte
  if atyp = 0x01 then
    let octets ← Source.next 4
    return .ip4 octets
  else if atyp = 0x02 then
    let length ← readByte
    let name ← Source.next length.toNat
    return .name (Bytes.utf8Decode name)
  else if atyp = 0x03 then
    let octets ← Source.next 16
    return .ip6 octets
  else throw .address

/-- The fields in front of the checksum. The padding is as long as the nibble says. -/
def readCommand : source.Reads Rejected Command := do
  let version ← readByte
  let iv ← Source.next 16
  let key ← Source.next 16
  let response ← readByte
  let option ← readByte
  let security ← readByte
  let _ ← readByte
  let command ← readByte
  let port ← Source.next 2
  let address ← readAddress
  let _ ← Source.next (security >>> 4).toNat
  return { version, iv, key, response, option, padding := (security >>> 4).toNat,
           security := security &&& 0x0f, command, port := Bytes.natBE port, address }

end

/-- The prime of FNV for 32 bits. -/
def fnvPrime : Nat := 2 ^ 24 + 2 ^ 8 + 0x93

/-- The offset basis of FNV for 32 bits. -/
def fnvOffset : Nat := 2166136261

/-- FNV-1a on numbers: each octet goes in by an exclusive or, and then the hash is multiplied by
the prime modulo `2 ^ 32`. -/
def fnv1a (octets : List Nat) : Nat :=
  octets.foldl (fun hash octet => (hash ^^^ octet) * fnvPrime % 2 ^ 32) fnvOffset

/-- A payload is a command and the FNV-1a checksum of its bytes, with nothing left over. -/
def parseCommand (payload : Bytes) : Except Rejected Command :=
  let body := payload.take (payload.length - 4)
  if Bytes.natBE (payload.drop (payload.length - 4)) ≠ fnv1a (body.map UInt8.toNat) then
    .error .checksum
  else
    match (readCommand : (Source.ofList UInt8).Reads Rejected Command) body with
    | some (.ok command, []) => .ok command
    | _ => .error .layout

/-- The paths of a key or nonce, with authID and nonce as they came in. -/
def receivedPaths (salt : Text) (authId connectionNonce : Bytes) : List Path :=
  [.text salt, .buffer authId, .buffer connectionNonce]

/-- Open one sealed part of the header. -/
def openPart (cmdKey : Sized 16) (keySalt ivSalt : Text) (authId connectionNonce sealed : Bytes) :
    Except Rejected Bytes :=
  match gcmOpen crypto (kdf16 crypto cmdKey (receivedPaths keySalt authId connectionNonce))
    (kdf12 crypto cmdKey (receivedPaths ivSalt authId connectionNonce)) sealed authId with
  | some plaintext => .ok plaintext
  | none => .error .tag

/-- Read a header off a stream: authID, sealed length, nonce and sealed command. -/
def receive (cmdKey : Sized 16) {source : Source UInt8} : source.Reads Rejected Command := do
  let authId ← Source.next 16
  let lengthSealed ← Source.next 18
  let connectionNonce ← Source.next 8
  let length ← ExceptT.mk (pure (openPart crypto cmdKey KDF_SALT_HEADER_LEN_KEY
    KDF_SALT_HEADER_LEN_IV authId connectionNonce lengthSealed))
  let payloadSealed ← Source.next (Bytes.natBE length + 16)
  let payload ← ExceptT.mk (pure (openPart crypto cmdKey KDF_SALT_HEADER_KEY KDF_SALT_HEADER_IV
    authId connectionNonce payloadSealed))
  ExceptT.mk (pure (parseCommand payload))

/-! ## Targets -/

/-- The hosts that the layout has room for: an IPv4 literal, an IPv6 literal of eight groups,
or a name of at most 255 bytes. -/
def Plain : Host → Text → Prop
  | .ip4 octets, host => SpellsIp4 octets host
  | .ip6 octets _, host =>
      ∃ ss, List.Forall₂ SpellsGroup (groups octets) ss ∧ host = [':'].intercalate ss
  | .name text _ _ _, host => host = text ∧ (Bytes.utf8Encode text).length ≤ 255

/-- The target as the receiver knows it. -/
def addressOf : Host → Address
  | .ip4 octets => .ip4 octets
  | .ip6 octets _ => .ip6 octets
  | .name text _ _ _ => .name text

/-- Address type and address. -/
def Address.encode : Address → Bytes
  | .ip4 octets => 0x01 :: octets
  | .name text => 0x02 :: UInt8.ofNat (Bytes.utf8Encode text).length :: Bytes.utf8Encode text
  | .ip6 octets => 0x03 :: octets

/-- The address has the length its type says. -/
def Address.Sized : Address → Prop
  | .ip4 octets => octets.length = 4
  | .name text => (Bytes.utf8Encode text).length ≤ 255
  | .ip6 octets => octets.length = 16

theorem sized_of_plain {target : Host} {host : Text} (h : Plain target host) :
    (addressOf target).Sized := by
  cases target with
  | ip4 octets => exact h.1
  | ip6 octets h16 => exact h16
  | name text _ _ _ => exact h.2

theorem vmessEncodeAddr_plain {target : Host} {host : Text} (h : Plain target host) {port : Nat}
    (hp : port < 65536) :
    vmessEncodeAddr host (.finite port) =
      .ok (Bytes.uint16BE port ++ (addressOf target).encode) := by
  cases target with
  | ip4 octets =>
      rw [vmessEncodeAddr, if_pos (isIp4_of_spells h), map_ofText_octets (splitOn_ip4 h),
        twoBytes_natCast hp]
      rfl
  | ip6 octets h16 =>
      obtain ⟨ss, hs, rfl⟩ := h
      have hne : ss ≠ [] := by
        rintro rfl
        cases hs
      have hsplit := List.splitOn_intercalate ':' (colonless_groups hs) hne
      have hcolon : ':' ∈ [':'].intercalate ss :=
        colon_mem_of_address (.full (spells_of_groups hs)) (by simp [groups])
      have h4 : isIp4 ([':'].intercalate ss) ≠ true := fun hi => by
        obtain ⟨_, hs⟩ := spells_of_isIp4 hi
        exact colonless_ip4 hs hcolon
      have hstored := (writeGroups_iff (stored_pieces (pieces_of_groups hs)) h16).mpr
        ⟨le_rfl, by simp [padded, groups]⟩
      rw [vmessEncodeAddr, if_neg h4, if_pos hcolon, hsplit, hstored, twoBytes_natCast hp]
      rfl
  | name text ne_nil colonless named =>
      obtain ⟨rfl, -⟩ := h
      have h4 : isIp4 host ≠ true := fun hi => by
        obtain ⟨_, hs⟩ := spells_of_isIp4 hi
        exact named _ hs
      rw [vmessEncodeAddr, if_neg h4, if_neg colonless, twoBytes_natCast hp]
      rfl

/-! ## Reading a command -/

section
variable {source : Source UInt8}

theorem consumes_address {address : Address} (h : address.Sized) :
    Source.Consumes (readAddress : source.Reads Rejected Address) address.encode address := by
  cases address with
  | ip4 octets =>
      exact (consumes_byte 0x01).bind ((Source.consumes_of_length h).bind_nil
        (Source.consumes_pure _))
  | name text =>
      have hl : (Bytes.utf8Encode text).length =
          (UInt8.ofNat (Bytes.utf8Encode text).length).toNat :=
        (Client.toNat_lengthByte h).symm
      have hname : Source.Consumes
          (Source.next (UInt8.ofNat (Bytes.utf8Encode text).length).toNat >>= fun name =>
            pure (Address.name (Bytes.utf8Decode name)) : source.Reads Rejected Address)
          (Bytes.utf8Encode text) (Address.name text) := by
        refine (Source.consumes_of_length hl).bind_nil ?_
        rw [Bytes.utf8Decode_utf8Encode]
        exact Source.consumes_pure _
      exact (consumes_byte 0x02).bind ((consumes_byte _).bind hname)
  | ip6 octets =>
      exact (consumes_byte 0x03).bind ((Source.consumes_of_length h).bind_nil
        (Source.consumes_pure _))

/-- The command that a receiver gets for these arguments. -/
def CommandArgs.command (args : CommandArgs) (padding : Padding) (port : Nat)
    (address : Address) : Command where
  version := 0x01
  iv := args.reqIV.val
  key := args.reqKey.val
  response := args.responseHeader
  option := 0x01
  padding := padding.paddingLength
  security := 0x03
  command := 0x01
  port
  address

theorem security_nibbles (n : Fin 16) :
    (UInt8.ofNat ((n.val <<< 4) ||| 0x03) >>> 4).toNat = n.val ∧
      UInt8.ofNat ((n.val <<< 4) ||| 0x03) &&& 0x0f = 0x03 := by
  revert n
  decide

/-- What `buildVmessCommand` puts in front of the checksum. -/
def CommandArgs.body (args : CommandArgs) (padding : Padding) (address : Bytes) : Bytes :=
  0x01 :: (args.reqIV.val ++ (args.reqKey.val ++ (args.responseHeader :: 0x01 ::
    UInt8.ofNat ((padding.paddingLength.val <<< 4) ||| 0x03) :: 0x00 :: 0x01 ::
      (address ++ padding.bytes.val))))

theorem consumes_command (args : CommandArgs) (padding : Padding) {port : Nat}
    (hp : port < 65536) {address : Address} (ha : address.Sized) :
    Source.Consumes (readCommand : source.Reads Rejected Command)
      (args.body padding (Bytes.uint16BE port ++ address.encode))
      (args.command padding port address) := by
  obtain ⟨hnibble, hsecurity⟩ := security_nibbles padding.paddingLength
  have hpadding := padding.bytes.property.trans hnibble.symm
  rw [CommandArgs.body, List.append_assoc]
  refine (consumes_byte _).bind ?_
  refine (Source.consumes_of_length args.reqIV.property).bind ?_
  refine (Source.consumes_of_length args.reqKey.property).bind ?_
  refine (consumes_byte _).bind ?_
  refine (consumes_byte _).bind ?_
  refine (consumes_byte _).bind ?_
  refine (consumes_byte _).bind ?_
  refine (consumes_byte _).bind ?_
  refine (Source.consumes_of_length (show (Bytes.uint16BE port).length = 2 from rfl)).bind ?_
  refine (consumes_address ha).bind ?_
  refine (Source.consumes_of_length hpadding).bind_nil ?_
  rw [hnibble, hsecurity, Bytes.natBE_uint16BE hp]
  exact Source.consumes_pure _

end

/-! ## Opening a header -/

/-- The words of the client stand for the numbers of FNV-1a. -/
theorem toNat_fnv1a32 (buffer : Bytes) :
    (fnv1a32 buffer).toNat = fnv1a (buffer.map UInt8.toNat) := by
  rw [fnv1a, List.foldl_map, fnv1a32]
  refine (List.foldl_hom UInt32.toNat fun hash byte => ?_).symm
  rw [UInt32.toNat_mul, UInt32.toNat_xor, UInt8.toNat_toUInt32]
  rfl

/-- The hash of `foobar`. -/
example : fnv1a ((Bytes.ofAscii "foobar".toList).map UInt8.toNat) = 0xbf9cf968 := by decide +kernel

theorem parseCommand_body {body : Bytes} {command : Command}
    (h : Source.Consumes (readCommand : (Source.ofList UInt8).Reads Rejected Command) body
      command) :
    parseCommand (body ++ Bytes.uintBE 4 (fnv1a32 body).toNat) = .ok command := by
  have hcut : (body ++ Bytes.uintBE 4 (fnv1a32 body).toNat).length - 4 = body.length := by
    rw [List.length_append, Bytes.length_uintBE, Nat.add_sub_cancel]
  have hread : (readCommand : (Source.ofList UInt8).Reads Rejected Command) body =
      some (.ok command, []) := h.ofList
  have hsum : Bytes.natBE (Bytes.uintBE 4 (fnv1a32 body).toNat) =
      fnv1a (body.map UInt8.toNat) := by
    rw [Bytes.natBE_uintBE (fnv1a32 body).toNat_lt, toNat_fnv1a32]
  simp only [parseCommand, hcut, List.take_left, List.drop_left, hsum, ne_eq, not_true_eq_false,
    if_false, hread]

theorem length_gcmSeal (key : Sized 16) (nonce : Sized 12) (plaintext aad : Bytes) :
    (gcmSeal crypto key nonce plaintext aad).length = plaintext.length + 16 := by
  rw [gcmSeal, List.length_append, crypto.gcm.length_ciphertext, crypto.gcm.length_tag]

theorem gcmOpen_gcmSeal (key : Sized 16) (nonce : Sized 12) (plaintext aad : Bytes) :
    gcmOpen crypto key nonce (gcmSeal crypto key nonce plaintext aad) aad = some plaintext := by
  have hcut : (gcmSeal crypto key nonce plaintext aad).place
      ((gcmSeal crypto key nonce plaintext aad).length - 16) =
      (crypto.gcm.encrypt key nonce aad plaintext).1.length := by
    rw [length_gcmSeal, crypto.gcm.length_ciphertext, Bytes.place]
    split <;> omega
  rw [gcmOpen, hcut, gcmSeal, List.take_left, List.drop_left, crypto.gcm.decrypt_encrypt]

/-- The receiver derives what the client derived: a binary string stands for its bytes. -/
theorem paths_bytes (salt : Text) (authId : Sized 16) (connectionNonce : Sized 8) :
    (receivedPaths salt authId.val connectionNonce.val).map Path.bytes =
      (pathsOf salt authId connectionNonce).map Path.bytes := by
  simp only [receivedPaths, pathsOf, List.map_cons, List.map_nil, Path.bytes, latin1Encode_latin1]

theorem openPart_sealed (cmdKey : Sized 16) (keySalt ivSalt : Text) (authId : Sized 16)
    (connectionNonce : Sized 8) (plaintext : Bytes) :
    openPart crypto cmdKey keySalt ivSalt authId.val connectionNonce.val
      (gcmSeal crypto (kdf16 crypto cmdKey (pathsOf keySalt authId connectionNonce))
        (kdf12 crypto cmdKey (pathsOf ivSalt authId connectionNonce)) plaintext authId.val) =
      .ok plaintext := by
  have hkey : kdf16 crypto cmdKey (receivedPaths keySalt authId.val connectionNonce.val) =
      kdf16 crypto cmdKey (pathsOf keySalt authId connectionNonce) :=
    Subtype.ext (congrArg (Bytes.subarray · 0 16) (vmessKdf_congr _ _ (paths_bytes _ _ _)))
  have hnonce : kdf12 crypto cmdKey (receivedPaths ivSalt authId.val connectionNonce.val) =
      kdf12 crypto cmdKey (pathsOf ivSalt authId connectionNonce) :=
    Subtype.ext (congrArg (Bytes.subarray · 0 12) (vmessKdf_congr _ _ (paths_bytes _ _ _)))
  rw [openPart, hkey, hnonce, gcmOpen_gcmSeal]

/-- A sealed command opens to what it parses as, and the stream behind it is left alone. -/
theorem consumes_sealed (cmdKey : Sized 16) (draw : Draw) {payload : Bytes} {command : Command}
    (hl : payload.length < 65536) (h : parseCommand payload = .ok command) :
    ∃ header, sealVmessAeadHeader crypto cmdKey draw payload = .ok header ∧
      ∀ source : Source UInt8, Source.Consumes
        (receive crypto cmdKey : source.Reads Rejected Command) header command := by
  have hfit : ¬ 65535 < payload.length := by omega
  refine ⟨_, if_neg hfit, fun source => ?_⟩
  rw [List.append_assoc, List.append_assoc]
  refine (Source.consumes_of_length (createAuthId crypto cmdKey draw).property).bind ?_
  refine (Source.consumes_of_length (length_gcmSeal crypto _ _ _ _)).bind ?_
  refine (Source.consumes_of_length draw.connectionNonce.property).bind ?_
  rw [openPart_sealed]
  refine Source.Consumes.of_pure ?_
  rw [Bytes.natBE_uint16BE hl]
  refine (Source.consumes_of_length (length_gcmSeal crypto _ _ _ _)).bind_nil ?_
  rw [openPart_sealed]
  refine Source.Consumes.of_pure ?_
  rw [h]
  exact Source.consumes_pure _

theorem length_encode_le {address : Address} (h : address.Sized) : address.encode.length ≤ 257 := by
  cases address with
  | ip4 octets =>
      have h : octets.length = 4 := h
      rw [Address.encode, List.length_cons, h]
      decide
  | name text =>
      have h : (Bytes.utf8Encode text).length ≤ 255 := h
      rw [Address.encode, List.length_cons, List.length_cons]
      omega
  | ip6 octets =>
      have h : octets.length = 16 := h
      rw [Address.encode, List.length_cons, h]
      decide

theorem length_body_le (args : CommandArgs) (padding : Padding) {address : Bytes}
    (h : address.length ≤ 259) : (args.body padding address).length < 60000 := by
  have hpadding := padding.bytes.property
  have hlt := padding.paddingLength.isLt
  simp only [CommandArgs.body, List.length_cons, List.length_append, args.reqIV.property,
    args.reqKey.property, hpadding]
  omega

/-- The header of every plain target opens to the command it was built from. -/
theorem header_opens (cmdKey : Sized 16) (draw : Draw) (args : CommandArgs) (padding : Padding)
    {target : Host} (h : Plain target args.host) {port : Nat} (hp : port < 65536)
    (hport : args.port = .finite port) :
    ∃ header, (buildVmessCommand args padding >>= sealVmessAeadHeader crypto cmdKey draw) =
      .ok header ∧ ∀ source : Source UInt8, Source.Consumes
        (receive crypto cmdKey : source.Reads Rejected Command) header
        (args.command padding port (addressOf target)) := by
  have hsized := sized_of_plain h
  have hbuild : buildVmessCommand args padding =
      .ok (args.body padding (Bytes.uint16BE port ++ (addressOf target).encode) ++
        Bytes.uintBE 4 (fnv1a32 (args.body padding
          (Bytes.uint16BE port ++ (addressOf target).encode))).toNat) := by
    simp only [buildVmessCommand, hport, vmessEncodeAddr_plain h hp, Except.map,
      CommandArgs.body, List.append_assoc, List.cons_append, List.nil_append]
  have haddress : (Bytes.uint16BE port ++ (addressOf target).encode).length ≤ 259 := by
    have := length_encode_le hsized
    rw [List.length_append]
    change 2 + _ ≤ 259
    omega
  have hlen := length_body_le args padding haddress
  rw [hbuild]
  exact consumes_sealed crypto cmdKey draw
    (by rw [List.length_append, Bytes.length_uintBE]; omega)
    (parseCommand_body (consumes_command args padding hp hsized))

/-- A hash without a trace of its input, and ciphers that leave their plaintext open. -/
def plainCrypto : Crypto where
  sha256 _ := Shadowsocks.zeros 32
  aes _ block := block
  gcm := Shadowsocks.plainAead 16

def loopbackArgs : CommandArgs where
  reqKey := Shadowsocks.zeros 16
  reqIV := Shadowsocks.zeros 16
  responseHeader := 0x5a
  host := "0:0:0:0:0:0:0:1".toList
  port := 443

theorem loopback_header_opens :
    ∃ header, (buildVmessCommand loopbackArgs ⟨2, Shadowsocks.zeros 2⟩ >>=
        sealVmessAeadHeader plainCrypto (Shadowsocks.zeros 16)
          ⟨0x68000000, Shadowsocks.zeros 4, Shadowsocks.zeros 8⟩) = .ok header ∧
      ∀ source : Source UInt8, Source.Consumes
        (receive plainCrypto (Shadowsocks.zeros 16) : source.Reads Rejected Command) header
        (loopbackArgs.command ⟨2, Shadowsocks.zeros 2⟩ 443 (addressOf loopback)) := by
  have hz : SpellsGroup 0 "0".toList := by decide
  have h1 : SpellsGroup 1 "1".toList := by decide
  have hplain : Plain loopback loopbackArgs.host := ⟨_, .cons hz (.cons hz (.cons hz (.cons hz
    (.cons hz (.cons hz (.cons hz (.cons h1 .nil))))))), rfl⟩
  exact header_opens plainCrypto (Shadowsocks.zeros 16) _ loopbackArgs _ hplain (by decide) rfl

end DshClashProxy.Core.VmessHeader
