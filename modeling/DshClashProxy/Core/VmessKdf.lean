import DshClashProxy.Js.Buffer
import DshClashProxy.Lib.Hmac

/-!
# The VMess key derivation

`vmessKdf` nests HMACs over SHA-256, one for the base constant and one for each path. It
keeps the bytes under the innermost hash in one accumulator, which the recursion overwrites
before its second call. Each level computes the HMAC of its keys whatever the accumulator
holds behind their pads.
-/
namespace DshClashProxy.Core.VmessKdf

open Js Lib.Hmac

/-- The low bytes of the code units of a character; above the basic plane there are two. -/
def latin1Units (c : Char) : Bytes :=
  if c.toNat < 0x10000 then [UInt8.ofNat c.toNat]
  else [UInt8.ofNat (0xd800 + (c.toNat - 0x10000) / 0x400), UInt8.ofNat (c.toNat - 0x10000)]

/-- `Buffer.from(text, "latin1")`. -/
def latin1Encode (s : Text) : Bytes := s.flatMap latin1Units

/-- A path is a buffer or a text. -/
inductive Path where
  | buffer (bytes : Bytes)
  | text (s : Text)

def Path.bytes : Path → Bytes
  | buffer bytes => bytes
  | text s => latin1Encode s

def KDF_BASE : Text := "VMess AEAD KDF".toList

/-- The first 64 bytes of the key, filled up with zeros, under the pad byte. -/
def pad64 (keyBytes : Bytes) (padByte : UInt8) : Bytes :=
  (keyBytes.take 64).map (padByte ^^^ ·) ++ List.replicate (64 - keyBytes.length) padByte

/-- The entry of a key in `pads`. -/
def padsOf (keyBytes : Bytes) : Pads UInt8 where
  ipad := pad64 keyBytes 0x36
  opad := pad64 keyBytes 0x5c

variable (sha256 : Bytes → Bytes)

/-- The digest of a level. The state is `inner`. -/
def sumLevel (pads : List (Pads UInt8)) : Nat → StateM Bytes Bytes
  | 0 => do
      let inner ← get
      let digest := sha256 inner
      return sha256 ((pads[0]?.map Pads.opad).getD [] ++ digest)
  | level + 1 => do
      let innerDigest ← sumLevel pads level
      set ((pads.take (level + 1)).flatMap Pads.ipad ++
        (pads[level + 1]?.map Pads.opad).getD [] ++ innerDigest)
      sumLevel pads level

def vmessKdf (key : Bytes) (paths : List Path) : Bytes :=
  let pads := padsOf (Bytes.utf8Encode KDF_BASE) :: paths.map fun path => padsOf path.bytes
  let inner := pads.flatMap Pads.ipad ++ key
  ((sumLevel sha256 pads paths.length).run inner).1

/-- Only the bytes of the paths count. -/
theorem vmessKdf_congr (key : Bytes) {paths paths' : List Path}
    (h : paths.map Path.bytes = paths'.map Path.bytes) :
    vmessKdf sha256 key paths = vmessKdf sha256 key paths' := by
  have hlength : paths.length = paths'.length := by
    have := congrArg List.length h
    rwa [List.length_map, List.length_map] at this
  have hpads : (paths.map fun path => padsOf path.bytes) =
      paths'.map fun path => padsOf path.bytes := by
    have := congrArg (List.map padsOf) h
    rwa [List.map_map, List.map_map] at this
  rw [vmessKdf, vmessKdf, hpads, hlength]

theorem latin1Encode_latin1 (b : Bytes) : latin1Encode (Bytes.latin1 b) = b := by
  induction b with
  | nil => rfl
  | cons c b ih =>
      have hlt : c.toNat < 0x10000 := c.toNat_lt.trans (by decide)
      rw [latin1Encode, Bytes.latin1, List.map_cons, List.flatMap_cons, latin1Units,
        Bytes.toNat_latin1, if_pos hlt, UInt8.ofNat_toNat]
      exact congrArg (c :: ·) ih

/-- A key of at most a block, filled up with zeros, under a pad byte. -/
def block (key : Bytes) (padByte : UInt8) : Bytes :=
  (key ++ List.replicate (64 - key.length) 0).map (· ^^^ padByte)

/-- The pads of HMAC with a block of 64 bytes. -/
def hmacPads (key : Bytes) : Pads UInt8 := ⟨block key 0x36, block key 0x5c⟩

theorem pad64_eq_block {key : Bytes} (h : key.length ≤ 64) (padByte : UInt8) :
    pad64 key padByte = block key padByte := by
  rw [pad64, block, List.take_of_length_le h, List.map_append, List.map_replicate,
    UInt8.zero_xor]
  refine congrArg (· ++ _) (List.map_congr_left fun b _ => ?_)
  exact UInt8.xor_comm padByte b

theorem padsOf_eq_hmacPads {key : Bytes} (h : key.length ≤ 64) : padsOf key = hmacPads key := by
  rw [padsOf, hmacPads, pad64_eq_block h, pad64_eq_block h]

/-- A level computes the HMAC of the keys up to its own, applied to what stands in the
accumulator behind their pads. By induction on the level: the first call finds the pad of the
level in front of the message, the second its other pad in front of the inner digest. -/
theorem sumLevel_eq (pads : List (Pads UInt8)) (level : Nat) (h : level < pads.length)
    (m : Bytes) :
    ((sumLevel sha256 pads level).run (ipads (pads.take (level + 1)) ++ m)).1 =
      nested sha256 (pads.take (level + 1)) m := by
  induction level generalizing m with
  | zero =>
      obtain ⟨key, rest, rfl⟩ := List.exists_cons_of_length_pos h
      change sha256 (key.opad ++ sha256 (ipads [key] ++ m)) = hmac sha256 key m
      rw [ipads, List.flatMap_singleton, hmac]
  | succ level ih =>
      have htake : pads.take (level + 1 + 1) = pads.take (level + 1) ++ [pads[level + 1]] :=
        (List.take_concat_get' pads (level + 1) h).symm
      have hget : pads[level + 1]? = some pads[level + 1] := List.getElem?_eq_getElem h
      have hfirst := ih (by omega) (pads[level + 1].ipad ++ m)
      have hsecond := ih (by omega) (pads[level + 1].opad ++
        nested sha256 (pads.take (level + 1)) (pads[level + 1].ipad ++ m))
      rw [htake, ipads_append, List.append_assoc, nested_append, hmac, ← hsecond, ← hfirst]
      -- the second call starts from the accumulator that the level writes
      change ((sumLevel sha256 pads level).run (ipads (pads.take (level + 1)) ++
        (pads[level + 1]?.map Pads.opad).getD [] ++ _)).1 = _
      rw [hget, List.append_assoc]
      rfl

/-- The key derivation is the nested HMAC of its paths over the base constant. -/
theorem vmessKdf_eq_nested (key : Bytes) (paths : List Path)
    (h : ∀ path ∈ paths, path.bytes.length ≤ 64) :
    vmessKdf sha256 key paths = nested sha256
      (hmacPads (Bytes.utf8Encode KDF_BASE) :: paths.map fun path => hmacPads path.bytes) key := by
  have hbase : padsOf (Bytes.utf8Encode KDF_BASE) = hmacPads (Bytes.utf8Encode KDF_BASE) :=
    padsOf_eq_hmacPads (by decide)
  have hpaths : (paths.map fun path => padsOf path.bytes) =
      paths.map fun path => hmacPads path.bytes :=
    List.map_congr_left fun path hp => padsOf_eq_hmacPads (h path hp)
  have hsum := sumLevel_eq sha256 (padsOf (Bytes.utf8Encode KDF_BASE) ::
    paths.map fun path => padsOf path.bytes) paths.length (by simp) key
  rw [List.take_of_length_le (by simp)] at hsum
  rw [← hbase, ← hpaths]
  exact hsum

/-- Over a hash that keeps its message, with one path. -/
theorem vmessKdf_of_one_path :
    vmessKdf List.reverse [1, 2, 3, 4] [.text "AES Auth ID Encryption".toList] =
      nested List.reverse [hmacPads (Bytes.utf8Encode KDF_BASE),
        hmacPads (latin1Encode "AES Auth ID Encryption".toList)] [1, 2, 3, 4] :=
  vmessKdf_eq_nested List.reverse [1, 2, 3, 4] [.text "AES Auth ID Encryption".toList] (by decide)

end DshClashProxy.Core.VmessKdf
